import Mathlib.Data.List.Basic
import Mathlib.Algebra.GroupWithZero.Nat
import LibreFang.Lib.Wildcard

/-!
# Glob patterns

`globMatches` and its three matchers, over lists of characters.

* `globMatchesSimple`: the legacy matcher; `globMatchesSimple_iff`: the last star takes any text,
  the stars before it take none.
* `globMatchSegments`: segment by segment; **`globMatchSegments_iff`**: a cut into blocks.
* `globMatchesPath`, `globMatchesWithSeparator`: segments between path separators, between dots.
* `globMatches`: the choice of the matcher by the pattern and the value.
-/

namespace LibreFang.Caps

open Wildcard

/-! ## The legacy matcher -/

theorem split_first_star {p : List Char} (h : '*' ∈ p) :
    p = p.takeWhile (· != '*') ++ '*' :: (p.dropWhile (· != '*')).tail := by
  induction p with
  | nil => simp at h
  | cons c p ih =>
    by_cases hc : c = '*'
    · subst hc
      simp
    · have hp : '*' ∈ p := by simpa [Ne.symm hc] using h
      have hne : (c != '*') = true := by simp [hc]
      rw [List.takeWhile_cons_of_pos (p := (· != '*')) hne,
        List.dropWhile_cons_of_pos (p := (· != '*')) hne, List.cons_append, ← ih hp]

/-- `str::len`: the number of bytes. -/
def byteLen (s : List Char) : ℕ := (s.map Char.utf8Size).sum

/-- `glob_matches_simple`. -/
def globMatchesSimple (pattern value : List Char) : Bool :=
  if pattern.head? = some '*' ∧ '*' ∉ pattern.tail then pattern.tail.isSuffixOf value
  else if pattern.getLast? = some '*' ∧ '*' ∉ pattern.dropLast then
    pattern.dropLast.isPrefixOf value
  else if _h : '*' ∈ pattern then
    let pre := pattern.takeWhile (· != '*')
    let suffix := (pattern.dropWhile (· != '*')).tail
    if '*' ∈ suffix then
      match pre.isPrefixOf? value with
      | some rest => globMatchesSimple suffix rest
      | none => false
    else
      pre.isPrefixOf value && suffix.isSuffixOf value &&
        decide (byteLen value ≥ byteLen pre + byteLen suffix)
  else false
termination_by pattern.length
decreasing_by
  have := congrArg List.length (split_first_star _h)
  simp only [List.length_append, List.length_cons] at this
  omega

/-! ### What it accepts -/

theorem byteLen_append (s t : List Char) : byteLen (s ++ t) = byteLen s + byteLen t := by
  simp [byteLen]

theorem byteLen_pos {s : List Char} (h : s ≠ []) : 0 < byteLen s := by
  cases s with
  | nil => exact absurd rfl h
  | cons c s =>
    have := Char.utf8Size_pos c
    simp only [byteLen, List.map_cons, List.sum_cons]
    omega

theorem fits_of_byteLen {a b v : List Char} (ha : a <+: v) (hb : b <:+ v)
    (hlen : byteLen v ≥ byteLen a + byteLen b) : ∃ x, v = a ++ x ++ b := by
  obtain ⟨t, rfl⟩ := ha
  obtain ⟨u, hu⟩ := hb
  rcases List.append_eq_append_iff.mp hu with ⟨w, rfl, rfl⟩ | ⟨w, rfl, rfl⟩
  · -- the overlap `w` would be counted twice
    simp only [byteLen_append] at hlen
    have hw : w = [] := by
      by_contra hne
      have := byteLen_pos hne
      omega
    subst hw
    exact ⟨[], by simp⟩
  · exact ⟨w, by simp⟩

/-- The literal text before the last star, without the stars in it, and the text after it. -/
def SimpleParts (p A B : List Char) : Prop :=
  ∃ L, p = L ++ '*' :: B ∧ '*' ∉ B ∧ A = L.filter (· != '*')

/-- The value starts with `A` and ends, after that, with `B`. -/
def Between (A B v : List Char) : Prop := ∃ x, v = A ++ x ++ B

theorem filter_of_no_star {s : List Char} (h : '*' ∉ s) : s.filter (· != '*') = s := by
  rw [List.filter_eq_self]
  intro c hc
  simp only [bne_iff_ne, ne_eq]
  rintro rfl
  exact h hc

theorem no_star_takeWhile (p : List Char) : '*' ∉ p.takeWhile (· != '*') := by
  induction p with
  | nil => simp
  | cons c p ih =>
    by_cases hc : c = '*'
    · simp [hc]
    · have hne : (c != '*') = true := by simp [hc]
      rw [List.takeWhile_cons_of_pos (p := (· != '*')) hne]
      simp only [List.mem_cons, not_or]
      exact ⟨Ne.symm hc, ih⟩

theorem exists_simpleParts {p : List Char} (h : '*' ∈ p) : ∃ A B, SimpleParts p A B := by
  induction p with
  | nil => simp at h
  | cons c p ih =>
    by_cases hp : '*' ∈ p
    · obtain ⟨A, B, L, rfl, hB, rfl⟩ := ih hp
      exact ⟨_, B, c :: L, rfl, hB, rfl⟩
    · obtain rfl : '*' = c := by simpa [hp] using h
      exact ⟨[], p, [], rfl, hp, rfl⟩

theorem simpleParts_unique {p A B A' B' : List Char} (h : SimpleParts p A B)
    (h' : SimpleParts p A' B') : A = A' ∧ B = B' := by
  obtain ⟨L, rfl, hB, rfl⟩ := h
  obtain ⟨L', hp, hB', rfl⟩ := h'
  rcases List.append_eq_append_iff.mp hp with ⟨t, rfl, ht⟩ | ⟨t, rfl, ht⟩
  · cases t with
    | nil =>
      obtain rfl : B = B' := by simpa using ht
      exact ⟨by simp, rfl⟩
    | cons b t =>
      obtain ⟨-, rfl⟩ : '*' = b ∧ B = t ++ '*' :: B' := by simpa using ht
      simp at hB
  · cases t with
    | nil =>
      obtain rfl : B' = B := by simpa using ht
      exact ⟨by simp, rfl⟩
    | cons b t =>
      obtain ⟨-, rfl⟩ : '*' = b ∧ B' = t ++ '*' :: B := by simpa using ht
      simp at hB'

theorem simpleParts_append {pre suffix A B : List Char} (hpre : '*' ∉ pre)
    (h : SimpleParts suffix A B) : SimpleParts (pre ++ '*' :: suffix) (pre ++ A) B := by
  obtain ⟨L, rfl, hB, rfl⟩ := h
  refine ⟨pre ++ '*' :: L, by simp, hB, ?_⟩
  rw [List.filter_append, filter_of_no_star hpre, List.filter_cons_of_neg (by simp)]

theorem simpleParts_single {pre suffix : List Char} (hpre : '*' ∉ pre) (hsuf : '*' ∉ suffix) :
    SimpleParts (pre ++ '*' :: suffix) pre suffix :=
  ⟨pre, rfl, hsuf, (filter_of_no_star hpre).symm⟩

theorem between_append {pre A B v : List Char} :
    Between (pre ++ A) B v ↔ ∃ rest, pre ++ rest = v ∧ Between A B rest := by
  constructor
  · rintro ⟨x, rfl⟩
    exact ⟨A ++ x ++ B, by simp, x, rfl⟩
  · rintro ⟨_, rfl, x, rfl⟩
    exact ⟨x, by simp⟩

theorem exists_parts_iff {p A B v : List Char} (h : SimpleParts p A B) :
    (∃ A' B', SimpleParts p A' B' ∧ Between A' B' v) ↔ Between A B v := by
  constructor
  · rintro ⟨A', B', h', hv⟩
    obtain ⟨rfl, rfl⟩ := simpleParts_unique h h'
    exact hv
  · exact fun hv => ⟨A, B, h, hv⟩

/-- **The legacy matcher**: the value is the literal text before the last star, then anything, then
the text after it. -/
theorem globMatchesSimple_iff (p v : List Char) :
    globMatchesSimple p v = true ↔ ∃ A B, SimpleParts p A B ∧ Between A B v := by
  fun_induction globMatchesSimple p v with
  | case1 p v h =>
    obtain ⟨hhead, hno⟩ := h
    obtain ⟨s, rfl⟩ := List.head?_eq_some_iff.mp hhead
    rw [List.tail_cons] at hno ⊢
    have hparts : SimpleParts ('*' :: s) [] s := ⟨[], rfl, hno, rfl⟩
    rw [exists_parts_iff hparts, List.isSuffixOf_iff_suffix]
    exact ⟨fun ⟨x, hx⟩ => ⟨x, hx.symm⟩, fun ⟨x, hx⟩ => ⟨x, hx.symm⟩⟩
  | case2 p v h₁ h =>
    obtain ⟨hl, hno⟩ := h
    obtain ⟨s, rfl⟩ := List.getLast?_eq_some_iff.mp hl
    rw [List.dropLast_concat] at hno ⊢
    have hparts : SimpleParts (s ++ ['*']) s [] := simpleParts_single hno List.not_mem_nil
    rw [exists_parts_iff hparts, List.isPrefixOf_iff_prefix]
    exact ⟨fun ⟨x, hx⟩ => ⟨x, by simp [hx]⟩, fun ⟨x, hx⟩ => ⟨x, by simp [hx]⟩⟩
  | case3 p v h₁ h₂ hstar pre suffix hmore rest hrest ih =>
    -- another star follows: the first one takes no text
    obtain ⟨A, B, hAB⟩ := exists_simpleParts hmore
    have hparts := simpleParts_append (no_star_takeWhile p) hAB
    rw [← split_first_star hstar] at hparts
    have hv := List.isPrefixOf?_eq_some_iff_append_eq.mp hrest
    rw [ih, exists_parts_iff hAB, exists_parts_iff hparts, between_append]
    constructor
    · exact fun hr => ⟨rest, hv, hr⟩
    · rintro ⟨rest', hr', hr⟩
      rwa [List.append_cancel_left (hr'.trans hv.symm)] at hr
  | case4 p v h₁ h₂ hstar pre suffix hmore hnone =>
    obtain ⟨A, B, hAB⟩ := exists_simpleParts hmore
    have hparts := simpleParts_append (no_star_takeWhile p) hAB
    rw [← split_first_star hstar] at hparts
    rw [exists_parts_iff hparts, between_append]
    simp only [Bool.false_eq_true, false_iff]
    rintro ⟨rest, hr, -⟩
    rw [List.isPrefixOf?_eq_some_iff_append_eq.mpr hr] at hnone
    cases hnone
  | case5 p v h₁ h₂ hstar pre suffix hmore =>
    have hparts := simpleParts_single (no_star_takeWhile p) hmore
    rw [← split_first_star hstar] at hparts
    rw [exists_parts_iff hparts]
    simp only [Bool.and_eq_true, List.isPrefixOf_iff_prefix, List.isSuffixOf_iff_suffix,
      decide_eq_true_eq]
    constructor
    · exact fun ⟨⟨ha, hb⟩, hlen⟩ => fits_of_byteLen ha hb hlen
    · rintro ⟨x, rfl⟩
      refine ⟨⟨⟨x ++ suffix, by simp [pre, suffix]⟩, ⟨pre ++ x, rfl⟩⟩, ?_⟩
      simp only [byteLen_append, pre, suffix]
      omega
  | case6 p v h₁ h₂ hstar =>
    simp only [Bool.false_eq_true, false_iff]
    rintro ⟨A, B, ⟨L, rfl, -, -⟩, -⟩
    simp at hstar

/-! ## Segments -/

/-- `segment_matches`. -/
def segmentMatches (pattern value : List Char) : Bool :=
  if pattern = ['*'] ∨ pattern = value then true
  else if '/' ∈ value then false
  else globMatchesSimple pattern value

/-- The pattern segment that takes any number of segments. -/
abbrev DoubleStar (pattern : List Char) : Prop := pattern = ['*', '*']

/-- `glob_match_segments`. -/
def globMatchSegments : List (List Char) → List (List Char) → Bool
  | [], [] => true
  | [], _ :: _ => false
  | p :: pat, [] => (p :: pat).all fun s => decide (DoubleStar s)
  | p :: pat, v :: val =>
    if DoubleStar p then
      -- zero segments first, then one or more
      globMatchSegments pat (v :: val) ||
        (List.range' 1 (v :: val).length).any fun i => globMatchSegments pat ((v :: val).drop i)
    else if segmentMatches p v then globMatchSegments pat val
    else false

/-- The segment matcher as a relation. -/
abbrev SegmentFits (p v : List Char) : Prop := segmentMatches p v = true

/-- **The segment-by-segment matcher** looks for a cut of the value's segments into blocks. -/
theorem globMatchSegments_iff (pat val : List (List Char)) :
    globMatchSegments pat val = true ↔ Blocks DoubleStar SegmentFits pat val := by
  induction pat generalizing val with
  | nil => cases val <;> simp [globMatchSegments, blocks_nil_iff]
  | cons p pat ih =>
    cases val with
    | nil =>
      simp only [globMatchSegments, List.all_eq_true, decide_eq_true_eq]
      constructor
      · exact fun h => blocks_of_forall_wide (List.cons_ne_nil p pat) h []
      · exact forall_wide_of_blocks_nil
    | cons v val =>
      by_cases hp : DoubleStar p
      · simp only [globMatchSegments, hp, if_true, Bool.or_eq_true, List.any_eq_true, ih,
          List.mem_range'_1]
        rw [← hp, blocks_cons_wide_drop hp]
        constructor
        · rintro (h | ⟨i, hi, h⟩)
          · exact ⟨0, by simp, h⟩
          · exact ⟨i, List.mem_range.mpr (by omega), h⟩
        · rintro ⟨i, hi, h⟩
          have hlt := List.mem_range.mp hi
          cases i with
          | zero => exact Or.inl h
          | succ i => exact Or.inr ⟨i + 1, by omega, h⟩
      · rw [blocks_cons_one_cons hp, ← ih]
        simp [globMatchSegments, hp]

/-- The path separators of both platforms. -/
def isSep (c : Char) : Bool := c == '/' || c == '\\'

/-- `glob_matches_path`. -/
def globMatchesPath (pattern value : List Char) : Bool :=
  globMatchSegments (pattern.splitOnP isSep) (value.splitOnP isSep)

/-- `glob_matches_with_separator`. -/
def globMatchesWithSeparator (pattern value : List Char) (sep : Char) : Bool :=
  globMatchSegments (pattern.splitOn sep) (value.splitOn sep)

/-- `pattern.contains('/') || pattern.contains('\\')`. -/
abbrev HasSep (pattern : List Char) : Prop := '/' ∈ pattern ∨ '\\' ∈ pattern

/-- `glob_matches`. -/
def globMatches (pattern value : List Char) : Bool :=
  if pattern = ['*'] then true
  else if pattern = value then true
  else if HasSep pattern then globMatchesPath pattern value
  else if '.' ∈ pattern ∧ '.' ∈ value then globMatchesWithSeparator pattern value '.'
  else globMatchesSimple pattern value

end LibreFang.Caps
