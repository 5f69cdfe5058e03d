import LibreFang.Caps.Glob
import LibreFang.Lib.Text

/-!
# Memory namespaces of a user

* `hasPathTraversal`, `namespaceGlobMatches`, `UserMemoryAccess.canRead`,
  `UserMemoryAccess.canWrite`.
* **`namespaceGlob_iff`**: for no other pattern.
-/

namespace LibreFang.Auth

open Caps Wildcard

/-- `UserMemoryAccess`, what the access checks read. -/
structure UserMemoryAccess where
  readableNamespaces : List (List Char)
  writableNamespaces : List (List Char)
  deriving DecidableEq, Repr

/-- What ends a segment of a namespace in `has_path_traversal`. -/
def isSeparator (c : Char) : Bool := c == '/' || c == ':' || Text.isWhitespace c

/-- `has_path_traversal`. -/
def hasPathTraversal (ns : List Char) : Bool :=
  (ns.splitOnP isSeparator).any fun seg => decide (['.', '.'] <:+: seg)

/-- `component`: a text that spans no separator. -/
def component (s : List Char) : Bool := !s.contains ':' && !s.contains '/'

/-- `namespace_glob_matches`. -/
def namespaceGlobMatches (pattern value : List Char) : Bool :=
  if pattern = ['*'] then true
  else if pattern = value then true
  else if pattern.head? = some '*' then
    let suffix := pattern.tail
    suffix.isSuffixOf value && component (value.take (value.length - suffix.length))
  else if pattern.getLast? = some '*' then
    let pre := pattern.dropLast
    pre.isPrefixOf value && component (value.drop pre.length)
  else if '*' ∈ pattern then
    let pre := pattern.takeWhile (· != '*')
    let suffix := (pattern.dropWhile (· != '*')).tail
    pre.isPrefixOf value && suffix.isSuffixOf value &&
      decide (byteLen pre + byteLen suffix ≤ byteLen value) &&
      component ((value.drop pre.length).take (value.length - suffix.length - pre.length))
  else false

/-- `UserMemoryAccess::can_read`. -/
def UserMemoryAccess.canRead (acl : UserMemoryAccess) (ns : List Char) : Bool :=
  !hasPathTraversal ns && acl.readableNamespaces.any fun p => namespaceGlobMatches p ns

/-- `UserMemoryAccess::can_write`. -/
def UserMemoryAccess.canWrite (acl : UserMemoryAccess) (ns : List Char) : Bool :=
  !hasPathTraversal ns && acl.writableNamespaces.any fun p => namespaceGlobMatches p ns

/-! ## Path traversal -/

theorem hasPathTraversal_of_dots {ns : List Char} (h : ['.', '.'] <:+: ns) :
    hasPathTraversal ns = true := by
  unfold hasPathTraversal
  rw [List.any_eq_true]
  induction ns with
  | nil => exact absurd (List.infix_nil.mp h) (by decide)
  | cons c ns ih =>
    have hkeep (hrest : ∃ seg ∈ ns.splitOnP isSeparator, decide (['.', '.'] <:+: seg) = true) :
        ∃ seg ∈ (c :: ns).splitOnP isSeparator, decide (['.', '.'] <:+: seg) = true := by
      obtain ⟨seg, hseg, hdots⟩ := hrest
      obtain ⟨first, rest, hsplit⟩ :=
        List.exists_cons_of_ne_nil (List.splitOnP_ne_nil isSeparator ns)
      rw [List.splitOnP_cons_eq_if_modifyHead, hsplit]
      rw [hsplit] at hseg
      split_ifs
      · exact ⟨seg, List.mem_cons_of_mem _ hseg, hdots⟩
      · rcases List.mem_cons.mp hseg with rfl | hseg
        · exact ⟨c :: seg, List.mem_cons_self,
            decide_eq_true (List.infix_cons (of_decide_eq_true hdots))⟩
        · exact ⟨seg, List.mem_cons_of_mem _ hseg, hdots⟩
    rcases List.infix_cons_iff.mp h with hdots | hdots
    · obtain ⟨rest, hrest⟩ := hdots
      obtain ⟨rfl, hrest⟩ := List.cons.inj hrest
      rw [← hrest]
      obtain ⟨first, segs, hsplit⟩ :=
        List.exists_cons_of_ne_nil (List.splitOnP_ne_nil isSeparator rest)
      refine ⟨'.' :: '.' :: first, ?_, decide_eq_true (List.prefix_append ['.', '.'] first).isInfix⟩
      have hdot : isSeparator '.' = false := by decide
      simp [List.splitOnP_cons_eq_if_modifyHead, hdot, hsplit]
    · exact hkeep (ih hdots)

theorem denied_of_dots {ns : List Char} (h : ['.', '.'] <:+: ns) (acl : UserMemoryAccess) :
    acl.canRead ns = false ∧ acl.canWrite ns = false := by
  unfold UserMemoryAccess.canRead UserMemoryAccess.canWrite
  rw [hasPathTraversal_of_dots h]
  exact ⟨rfl, rfl⟩

/-! ## Patterns -/

theorem component_nil : component [] = true := rfl

theorem component_star : component ['*'] = true := by decide

/-- **What matches instantiates the pattern**, each star by a text without separators. -/
theorem namespaceGlobMatches_sound {pattern value : List Char}
    (h : namespaceGlobMatches pattern value = true) :
    pattern = ['*'] ∨ FillsBy '*' (component · = true) pattern value := by
  unfold namespaceGlobMatches at h
  by_cases hbare : pattern = ['*']
  · exact .inl hbare
  rw [if_neg hbare] at h
  refine .inr ?_
  have hself (p : List Char) : FillsBy '*' (component · = true) p p := fillsBy_self component_star p
  by_cases heq : pattern = value
  · rw [← heq]
    exact hself pattern
  rw [if_neg heq] at h
  by_cases hhead : pattern.head? = some '*'
  · rw [if_pos hhead, Bool.and_eq_true, List.isSuffixOf_iff_suffix] at h
    obtain ⟨⟨front, hfront⟩, hcomp⟩ := h
    obtain ⟨suffix, rfl⟩ := List.head?_eq_some_iff.mp hhead
    rw [List.tail_cons] at hfront hcomp
    rw [← hfront, List.length_append, Nat.add_sub_cancel, List.take_left] at hcomp
    rw [← hfront]
    exact .star front hcomp (hself suffix)
  rw [if_neg hhead] at h
  by_cases hlast : pattern.getLast? = some '*'
  · rw [if_pos hlast, Bool.and_eq_true, List.isPrefixOf_iff_prefix] at h
    obtain ⟨⟨back, hback⟩, hcomp⟩ := h
    obtain ⟨front, rfl⟩ := List.getLast?_eq_some_iff.mp hlast
    rw [List.dropLast_concat] at hback hcomp
    rw [← hback, List.drop_left] at hcomp
    rw [← hback]
    have hstar : FillsBy '*' (component · = true) ['*'] (back ++ []) := .star back hcomp .nil
    rw [List.append_nil] at hstar
    exact (hself front).append hstar
  rw [if_neg hlast] at h
  split_ifs at h with hmem
  simp only [Bool.and_eq_true, List.isPrefixOf_iff_prefix, List.isSuffixOf_iff_suffix,
    decide_eq_true_eq] at h
  obtain ⟨⟨⟨hpre, hsuffix⟩, hlen⟩, hcomp⟩ := h
  obtain ⟨mid, hmid⟩ := fits_of_byteLen hpre hsuffix hlen
  have hcut : (value.drop (pattern.takeWhile (· != '*')).length).take
      (value.length - (pattern.dropWhile (· != '*')).tail.length -
        (pattern.takeWhile (· != '*')).length) = mid := by
    have hlength := congrArg List.length hmid
    rw [List.length_append, List.length_append] at hlength
    rw [hlength, Nat.add_sub_cancel, Nat.add_sub_cancel_left]
    conv_lhs => rw [hmid, List.append_assoc, List.drop_left, List.take_left]
  rw [hcut] at hcomp
  rw [split_first_star hmem, hmid, List.append_assoc]
  exact (hself _).append (.star mid hcomp (hself _))

/-- **A pattern with at most one star** matches every value that instantiates it. -/
theorem namespaceGlobMatches_one_star {pattern value : List Char} (hone : pattern.count '*' ≤ 1)
    (h : FillsBy '*' (component · = true) pattern value) :
    namespaceGlobMatches pattern value = true := by
  unfold namespaceGlobMatches
  by_cases hbare : pattern = ['*']
  · rw [if_pos hbare]
  rw [if_neg hbare]
  by_cases hmem : '*' ∈ pattern
  · obtain ⟨front, back, rfl, hfront⟩ := List.eq_append_cons_of_mem hmem
    have hback : '*' ∉ back := by
      rw [List.count_append, List.count_cons_self] at hone
      exact List.count_eq_zero.mp (by omega)
    obtain ⟨x, hx, rfl⟩ := exists_of_fillsBy_star hfront hback h
    split_ifs with heq hhead hlast
    · rfl
    · -- the star is the first character
      have hnil : front = [] := by
        cases front with
        | nil => rfl
        | cons c front =>
          obtain rfl : c = '*' := Option.some.inj hhead
          exact absurd List.mem_cons_self hfront
      rw [hnil, List.nil_append, List.nil_append, List.tail_cons, Bool.and_eq_true,
        List.isSuffixOf_iff_suffix, List.length_append, Nat.add_sub_cancel, List.take_left]
      exact ⟨List.suffix_append x back, hx⟩
    · -- the star is the last character
      have hnil : back = [] := by
        rcases List.eq_nil_or_concat back with hnil | ⟨back, c, rfl⟩
        · exact hnil
        · rw [List.concat_eq_append, ← List.cons_append, ← List.append_assoc,
            List.getLast?_concat] at hlast
          rw [Option.some.inj hlast] at hback
          exact absurd (by simp) hback
      rw [hnil, List.append_nil, List.dropLast_concat, Bool.and_eq_true,
        List.isPrefixOf_iff_prefix, List.drop_left]
      exact ⟨List.prefix_append front x, hx⟩
    · have htake : (front ++ '*' :: back).takeWhile (· != '*') = front := by
        rw [List.takeWhile_append_of_pos fun c hc => ?_, List.takeWhile_cons_of_neg (by simp),
          List.append_nil]
        exact bne_iff_ne.mpr fun hstar => hfront (hstar ▸ hc)
      have hdrop : ((front ++ '*' :: back).dropWhile (· != '*')).tail = back := by
        rw [List.dropWhile_append_of_pos fun c hc => ?_, List.dropWhile_cons_of_neg (by simp),
          List.tail_cons]
        exact bne_iff_ne.mpr fun hstar => hfront (hstar ▸ hc)
      rw [htake, hdrop]
      simp only [Bool.and_eq_true, List.isPrefixOf_iff_prefix, List.isSuffixOf_iff_suffix,
        decide_eq_true_eq, byteLen_append, List.append_assoc, List.drop_left, List.length_append]
      refine ⟨⟨⟨List.prefix_append _ _, ?_⟩, by omega⟩, ?_⟩
      · rw [← List.append_assoc]
        exact List.suffix_append _ _
      · have hlength : front.length + (x.length + back.length) - back.length - front.length =
            x.length := by omega
        rwa [hlength, List.take_left]
  · rw [if_pos (eq_of_fillsBy hmem h).symm]

theorem namespaceGlobMatches_stars {pattern : List Char} (hstars : 1 < pattern.count '*') :
    namespaceGlobMatches pattern (pattern.filter (· != '*')) = false := by
  have hvalue : '*' ∉ pattern.filter (· != '*') := by
    rw [List.mem_filter]
    exact fun h => absurd h.2 (by decide)
  have hmem : '*' ∈ pattern := List.count_pos_iff.mp (by omega)
  by_contra h
  rw [Bool.not_eq_false] at h
  unfold namespaceGlobMatches at h
  split_ifs at h with hbare heq hhead hlast
  · rw [hbare] at hstars
    exact absurd hstars (by decide)
  · exact hvalue (heq ▸ hmem)
  · obtain ⟨suffix, rfl⟩ := List.head?_eq_some_iff.mp hhead
    rw [Bool.and_eq_true, List.isSuffixOf_iff_suffix] at h
    rw [List.count_cons_self] at hstars
    exact hvalue (h.1.subset (List.count_pos_iff.mp (by rw [List.tail_cons]; omega)))
  · obtain ⟨front, rfl⟩ := List.getLast?_eq_some_iff.mp hlast
    rw [Bool.and_eq_true, List.isPrefixOf_iff_prefix, List.dropLast_concat] at h
    rw [List.count_append] at hstars
    exact hvalue (h.1.subset (List.count_pos_iff.mp (by simpa using hstars)))
  · simp only [Bool.and_eq_true, List.isSuffixOf_iff_suffix] at h
    rw [split_first_star hmem, List.count_append, List.count_cons_self,
      List.count_eq_zero.mpr (no_star_takeWhile pattern)] at hstars
    exact hvalue (h.1.1.2.subset (List.count_pos_iff.mp (by omega)))

/-- What a pattern means, and that no namespace with two dots in a row is accessible. -/
def NamespaceGlobContract (pattern : List Char) : Prop :=
  (∀ value, namespaceGlobMatches pattern value = true ↔
    pattern = ['*'] ∨ FillsBy '*' (component · = true) pattern value) ∧
  ∀ (acl : UserMemoryAccess) ns, ['.', '.'] <:+: ns → acl.canRead ns = false ∧ acl.canWrite ns = false

/-- **A pattern means what it says exactly if it has at most one star.** -/
theorem namespaceGlob_iff (pattern : List Char) :
    NamespaceGlobContract pattern ↔ pattern.count '*' ≤ 1 := by
  constructor
  · rintro ⟨hmatches, -⟩
    by_contra hstars
    have hnot := namespaceGlobMatches_stars (Nat.not_le.mp hstars)
    rw [(hmatches _).mpr (.inr (fillsBy_filter component_nil pattern))] at hnot
    cases hnot
  · intro hone
    refine ⟨fun value => ⟨namespaceGlobMatches_sound, fun h => ?_⟩, fun acl ns h =>
      denied_of_dots h acl⟩
    rcases h with rfl | h
    · rfl
    · exact namespaceGlobMatches_one_star hone h

/-- The second star of `a:*:*` stands for itself only. -/
theorem second_star_literal : ¬ ∀ pattern, NamespaceGlobContract pattern := by
  intro hall
  have hfills : FillsBy '*' (component · = true) "a:*:*".toList "a:b:c".toList :=
    .lit (by decide) (.lit (by decide) (.star ['b'] (by decide) (.lit (by decide)
      (.star ['c'] (by decide) .nil))))
  have hmatch := ((hall "a:*:*".toList).1 "a:b:c".toList).mpr (.inr hfills)
  exact absurd hmatch (by decide)

end LibreFang.Auth
