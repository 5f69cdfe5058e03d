import LibreFang.Caps.Glob

/-!
# What the glob matchers decide

* `StarsTogether`: a pattern has stars, and nothing stands between them.
* **`decides_iff_starsTogether`**: the legacy matcher decides wildcard matching for just these
  patterns.
* **`globMatchSegments_meets_definition`**: the segment matcher looks for one block of segments for
  each segment of the pattern, so that a path pattern without `**` keeps the number of segments.
-/

namespace LibreFang.Caps

open Wildcard

/-! ## The legacy matcher -/

/-- The stars of the pattern stand together; it has at least one. -/
def StarsTogether (p : List Char) : Prop :=
  ∃ A k B, p = A ++ List.replicate (k + 1) '*' ++ B ∧ '*' ∉ A ∧ '*' ∉ B

/-- The matcher decides for every value whether it comes from the pattern by filling in the stars. -/
def Decides (p : List Char) : Prop := ∀ v, globMatchesSimple p v = true ↔ Fills '*' p v

theorem simpleParts_replicate {A B : List Char} (hA : '*' ∉ A) (hB : '*' ∉ B) (k : ℕ) :
    SimpleParts (A ++ List.replicate (k + 1) '*' ++ B) A B := by
  refine ⟨A ++ List.replicate k '*', ?_, hB, ?_⟩
  · rw [List.replicate_succ', List.append_assoc, List.append_assoc, List.append_assoc]
    rfl
  · rw [List.filter_append, filter_of_no_star hA, List.filter_replicate_of_neg (by decide),
      List.append_nil]

theorem decides_of_starsTogether {p : List Char} (h : StarsTogether p) : Decides p := by
  obtain ⟨A, k, B, rfl, hA, hB⟩ := h
  intro v
  rw [globMatchesSimple_iff, exists_parts_iff (simpleParts_replicate hA hB k), fills_append]
  constructor
  · rintro ⟨x, rfl⟩
    refine ⟨A ++ x, B, rfl, fills_append.mpr ⟨A, x, rfl, ?_, fills_replicate k x⟩, ?_⟩
    · exact (fills_literal hA).mpr rfl
    · exact (fills_literal hB).mpr rfl
  · rintro ⟨u, w, rfl, hu, hw⟩
    obtain ⟨a, x, rfl, ha, -⟩ := fills_append.mp hu
    rw [(fills_literal hA).mp ha, (fills_literal hB).mp hw]
    exact ⟨x, rfl⟩

theorem exists_ne_char (c : Char) : ∃ x : Char, x ≠ c := by
  by_cases hc : c = 'a'
  · exact ⟨'b', by rw [hc]; decide⟩
  · exact ⟨'a', Ne.symm hc⟩

theorem not_between_of_literal {A M B : List Char} {c x : Char} (hx : x ≠ c) :
    ¬ Between (A ++ c :: M) B (A ++ x :: (c :: M ++ B)) := by
  rintro ⟨y, hy⟩
  rw [List.append_assoc, List.append_assoc] at hy
  have htail := List.append_cancel_left hy
  rw [List.cons_append] at htail
  exact hx (List.cons.inj htail).1

theorem starsTogether_of_decides {p : List Char} (h : Decides p) : StarsTogether p := by
  have hstar : '*' ∈ p := by
    by_contra hp
    obtain ⟨A, B, ⟨L, rfl, -, -⟩, -⟩ :=
      (globMatchesSimple_iff p p).mp ((h p).mpr ((fills_literal hp).mpr rfl))
    exact hp (List.mem_append_right _ List.mem_cons_self)
  obtain ⟨_, B, L, rfl, hB, rfl⟩ := exists_simpleParts hstar
  by_cases hL : '*' ∈ L
  · have hsplit := split_first_star hL
    have hA := no_star_takeWhile L
    generalize L.takeWhile (· != '*') = A at hsplit hA
    generalize (L.dropWhile (· != '*')).tail = M at hsplit
    subst hsplit
    have hM : M.filter (· != '*') = [] := by
      cases hliteral : M.filter (· != '*') with
      | nil => rfl
      | cons c F =>
        -- the first star is filled with a character, the others with nothing
        obtain ⟨x, hx⟩ := exists_ne_char c
        have hparts : SimpleParts (A ++ '*' :: M ++ '*' :: B) (A ++ c :: F) B := by
          refine ⟨A ++ '*' :: M, rfl, hB, ?_⟩
          rw [List.filter_append, filter_of_no_star hA, List.filter_cons_of_neg (by decide),
            hliteral]
        have hfills : Fills '*' (A ++ '*' :: M ++ '*' :: B) (A ++ x :: (c :: F ++ B)) := by
          have hlast : Fills '*' ('*' :: B) B := .star [] ((fills_literal hB).mpr rfl)
          have hmid : Fills '*' M (c :: F) := hliteral ▸ fills_filter M
          rw [List.append_assoc]
          refine fills_append.mpr ⟨A, _, rfl, (fills_literal hA).mpr rfl, ?_⟩
          exact .star [x] (fills_append.mpr ⟨c :: F, B, rfl, hmid, hlast⟩)
        have hbetween := (exists_parts_iff hparts).mp ((globMatchesSimple_iff _ _).mp
          ((h _).mpr hfills))
        exact absurd hbetween (not_between_of_literal hx)
    have hall : ∀ a ∈ M, a = '*' := by
      intro a ha
      simpa using List.filter_eq_nil_iff.mp hM a ha
    refine ⟨A, M.length + 1, B, ?_, hA, hB⟩
    rw [List.eq_replicate_of_mem hall, List.length_replicate, List.replicate_succ,
      List.replicate_succ', List.append_assoc, List.append_assoc, List.cons_append,
      List.cons_append, List.append_assoc]
    rfl
  · refine ⟨L, 0, B, ?_, hL, hB⟩
    rw [List.append_assoc]
    rfl

/-- **The legacy matcher decides wildcard matching for a pattern exactly if** the pattern has a
star, and its stars stand together. -/
theorem decides_iff_starsTogether (p : List Char) :
    (∀ v, globMatchesSimple p v = true ↔ Fills '*' p v) ↔ StarsTogether p :=
  ⟨starsTogether_of_decides, decides_of_starsTogether⟩

/-- **Of two stars the first takes no text.** -/
theorem mcpPattern_not_decides : ¬∀ p v, globMatchesSimple p v = true ↔ Fills '*' p v := by
  intro hall
  have hfills : Fills '*' "mcp_*_read*".toList "mcp_github_read_file".toList := by
    have htail : Fills '*' "_read*".toList "_read_file".toList :=
      (@fills_append _ '*' "_read".toList ['*'] _).mpr ⟨"_read".toList, "_file".toList, rfl,
        (fills_literal (by decide)).mpr rfl, fills_replicate 0 _⟩
    exact (@fills_append _ '*' "mcp_".toList _ _).mpr ⟨"mcp_".toList, "github_read_file".toList,
      rfl, (fills_literal (by decide)).mpr rfl, .star "github".toList htail⟩
  have hparts : SimpleParts "mcp_*_read*".toList "mcp__read".toList [] :=
    ⟨"mcp_*_read".toList, rfl, List.not_mem_nil, by decide⟩
  obtain ⟨x, hx⟩ := (exists_parts_iff hparts).mp
    ((globMatchesSimple_iff _ _).mp ((hall _ _).mpr hfills))
  have htake := congrArg (List.take 5) hx
  exact absurd htake (by simp)

/-! ## The segment matcher -/

/-- A `**` takes any number of segments, any other segment exactly one that `segment_matches`
accepts. -/
abbrev SegmentTakes : List Char → List (List Char) → Prop := Takes DoubleStar SegmentFits

theorem length_segments_of_globMatches {pattern value : List Char} (hsep : HasSep pattern)
    (hwide : ∀ s ∈ pattern.splitOnP isSep, ¬ DoubleStar s) (hne : pattern ≠ value)
    (h : globMatches pattern value = true) :
    (value.splitOnP isSep).length = (pattern.splitOnP isSep).length := by
  have hbare : pattern ≠ ['*'] := by
    rintro rfl
    exact absurd hsep (by decide)
  unfold globMatches at h
  rw [if_neg hbare, if_neg hne, if_pos hsep, globMatchesPath, globMatchSegments_iff] at h
  exact h.length_eq hwide

/-- **The segment matcher meets its definition.** It accepts exactly the values that can be cut into
consecutive blocks, one for each segment of the pattern. Hence no `*` of a path pattern crosses a
separator. -/
theorem globMatchSegments_meets_definition :
    (∀ pat val, globMatchSegments pat val = true ↔
      ∃ blocks, val = blocks.flatten ∧ List.Forall₂ SegmentTakes pat blocks) ∧
    ∀ pattern value, HasSep pattern → (∀ s ∈ pattern.splitOnP isSep, ¬ DoubleStar s) →
      globMatches pattern value = true → pattern = value ∨
        (value.splitOnP isSep).length = (pattern.splitOnP isSep).length := by
  constructor
  · intro pat val
    rw [globMatchSegments_iff, blocks_iff_forall₂]
  · intro pattern value hsep hwide h
    by_cases hne : pattern = value
    · exact .inl hne
    · exact .inr (length_segments_of_globMatches hsep hwide hne h)

/-- A file of a directory has as many segments as the pattern. -/
theorem globMatchSegments_meets_definition_data :
    ("data/file.txt".toList.splitOnP isSep).length = ("data/*".toList.splitOnP isSep).length :=
  (globMatchSegments_meets_definition.2 "data/*".toList "data/file.txt".toList (by decide)
    (by decide) (by decide)).resolve_left (by decide)

end LibreFang.Caps
