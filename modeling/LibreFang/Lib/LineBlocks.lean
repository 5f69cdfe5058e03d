import LibreFang.Lib.Occurrences
import LibreFang.Lib.TextLines

/-!
# Lines of a text that are replaced

* `lineRegion`: some lines of a text as a region of its characters.
* `Block`, `blocksOf`: a text cut at lines that match; `blocksOf_cons`: one more match.
* **`unlines_eq_iff`**, **`unlines_flatMap_eq_iff`**: when the lines that are joined are the text.
-/

namespace LineBlocks

open TextLines Occurrences

/-! ## Lines as regions -/

/-- The place where a line starts. -/
def lineStart (content : List Char) (k : ℕ) : ℕ := ((splitInclusive content).take k).flatten.length

/-- Lines from the start of the first to the end of the last, without what ends the last. -/
def lineRegion (content : List Char) (block : ℕ × ℕ) : ℕ × ℕ :=
  (lineStart content block.1,
    lineStart content block.2 + ((lines content)[block.2]?.getD []).length)

/-! ## Blocks of lines -/

/-- A line that is kept, with what ends it, or lines that match, with what ends the last. -/
inductive Block
  | kept (text ending : List Char)
  | matched (ending : List Char)
  deriving DecidableEq, Repr

/-- What ends a block. -/
def Block.ending : Block → List Char
  | kept _ ending => ending
  | matched ending => ending

/-- The text of a block, with what is put for lines that match. -/
def Block.text (new : List Char) : Block → List Char
  | kept text _ => text
  | matched _ => new

/-- A line that is kept. -/
def keep (piece : List Char) : Block := .kept (chomp piece) (TextLines.ending piece)

/-- The block of lines that match, up to some line. -/
def matchedUpTo (pieces : List (List Char)) (range : ℕ × ℕ) : List Block :=
  [.matched (TextLines.ending (pieces[range.2 - 1]?.getD []))]

/-- The lines of a text, cut at blocks of lines that match. -/
def blocksOf (pieces : List (List Char)) (blocks : List (ℕ × ℕ)) : List Block :=
  spliceAll (matchedUpTo pieces) (blocks.map fun block => (block.1, block.2 + 1)) (pieces.map keep)

/-- The text of blocks. -/
def expand (new : List Char) (blocks : List Block) : List Char :=
  blocks.flatMap fun block => block.text new ++ block.ending

/-- Blocks of lines in order, none of which shares a line with another. -/
structure LinesApart (n : ℕ) (blocks : List (ℕ × ℕ)) : Prop where
  inside : ∀ block ∈ blocks, block.1 ≤ block.2 ∧ block.2 < n
  apart : blocks.Pairwise fun a b => a.2 < b.1

variable {blocks : List (ℕ × ℕ)} {block : ℕ × ℕ}

theorem LinesApart.tail {n : ℕ}
    (h : LinesApart n (block :: blocks)) : LinesApart n blocks :=
  ⟨fun b hb => h.inside b (List.mem_cons_of_mem _ hb), (List.pairwise_cons.mp h.apart).2⟩

/-- The lines of a block, with the lines that are put for those that match. -/
def Block.lines (newLines : List (List Char)) : Block → List (List Char)
  | kept text _ => [text]
  | matched _ => newLines

theorem expand_append (new : List Char) (a b : List Block) :
    expand new (a ++ b) = expand new a ++ expand new b := List.flatMap_append

theorem expand_keep (new : List Char) (pieces : List (List Char)) :
    expand new (pieces.map keep) = pieces.flatten := by
  induction pieces with
  | nil => rfl
  | cons piece pieces ih =>
    have hone : expand new [keep piece] = piece := by
      unfold expand
      rw [List.flatMap_singleton]
      exact (chomp_append_ending piece).1
    rw [List.map_cons, ← List.singleton_append, expand_append, hone, ih, List.flatten_cons]

variable {pieces : List (List Char)}

theorem exists_around {n : ℕ} (hn : pieces.length = n)
    (h : block.1 ≤ block.2 ∧ block.2 < n) : ∃ before inner last after,
      pieces = before ++ inner ++ last :: after ∧ before.length = block.1 ∧
        (before ++ inner).length = block.2 := by
  have hlt : block.2 < pieces.length := hn ▸ h.2
  refine ⟨pieces.take block.1, (pieces.take block.2).drop block.1, pieces[block.2],
    pieces.drop (block.2 + 1), ?_, ?_, ?_⟩
  · have hfront : pieces.take block.1 ++ (pieces.take block.2).drop block.1 =
        pieces.take block.2 := by
      conv_rhs => rw [← List.take_append_drop block.1 (pieces.take block.2), List.take_take,
        min_eq_left h.1]
    rw [hfront, ← List.drop_eq_getElem_cons hlt, List.take_append_drop]
  · exact List.length_take_of_le (h.1.trans hlt.le)
  · rw [List.length_append, List.length_drop, List.length_take_of_le (h.1.trans hlt.le),
      List.length_take_of_le hlt.le]
    omega

/-- **One more block**: what is before it is as in the text, and what is after it as it was. -/
theorem blocksOf_cons {before inner after : List (List Char)} {last : List Char}
    (hbefore : before.length = block.1) (hinner : (before ++ inner).length = block.2)
    (h : LinesApart (before ++ inner ++ last :: after).length (block :: blocks)) :
    ∃ rest, blocksOf (before ++ inner ++ last :: after) blocks =
        (before ++ inner ++ [last]).map keep ++ rest ∧
      blocksOf (before ++ inner ++ last :: after) (block :: blocks) =
        before.map keep ++ [.matched (TextLines.ending last)] ++ rest := by
  have hapart := (List.pairwise_cons.mp h.apart).1
  have hsplit : (before ++ inner ++ last :: after).map keep =
      (before ++ inner ++ [last]).map keep ++ after.map keep := by
    simp only [List.map_append, List.map_cons, List.append_assoc, List.singleton_append, List.map_nil]
  obtain ⟨rest, hrest⟩ := @exists_spliceAll _ (matchedUpTo (before ++ inner ++ last :: after))
    (blocks.map fun block => (block.1, block.2 + 1)) ((before ++ inner ++ [last]).map keep)
    (after.map keep) (by
      refine List.forall_mem_map.mpr fun b hb => ⟨?_, ?_⟩
      · have := hapart b hb
        rw [List.length_map, List.length_append, hinner, List.length_singleton]
        exact this
      · exact ((h.inside b (List.mem_cons_of_mem _ hb)).1).trans (Nat.le_succ _))
  rw [← hsplit] at hrest
  refine ⟨rest, hrest, ?_⟩
  have hput : matchedUpTo (before ++ inner ++ last :: after) (block.1, block.2 + 1) =
      [.matched (TextLines.ending last)] := by
    unfold matchedUpTo
    rw [Nat.add_sub_cancel, ← hinner, List.getElem?_append_right le_rfl, Nat.sub_self]
    rfl
  have hcons : blocksOf (before ++ inner ++ last :: after) (block :: blocks) =
      splice (matchedUpTo (before ++ inner ++ last :: after)) (block.1, block.2 + 1)
        (before.map keep ++ (inner ++ [last]).map keep ++ rest) := by
    rw [← List.map_append, ← List.append_assoc, ← hrest]
    rfl
  rw [hcons, splice_append (by rw [List.length_map, hbefore]), hput]
  rw [← List.map_append, List.length_map, ← List.append_assoc, List.length_append, hinner,
    List.length_singleton]

/-- **Matches replaced one after the other give the blocks**: `g` reads a block, `body` and `tail` are
a line that is kept and what stays of it behind a match. -/
theorem spliceAll_blocksOf {γ : Type*} {g : Block → List γ} {put : List γ}
    (body tail : List Char → List γ) (hkeep : ∀ p, g (keep p) = body p ++ tail p)
    (hmatched : ∀ p, g (.matched (TextLines.ending p)) = put ++ tail p) {region : ℕ × ℕ → ℕ × ℕ}
    (hregion : ∀ before inner last after block, pieces = before ++ inner ++ last :: after →
      before.length = block.1 → (before ++ inner).length = block.2 →
      ((before.map keep).flatMap g).length = (region block).1 ∧
        (((before ++ inner).map keep).flatMap g ++ body last).length = (region block).2) (h :
        LinesApart pieces.length blocks) :
    spliceAll (fun _ => put) (blocks.map region) ((pieces.map keep).flatMap g) =
      (blocksOf pieces blocks).flatMap g := by
  induction blocks with
  | nil => rfl
  | cons block blocks ih =>
    obtain ⟨before, inner, last, after, rfl, hbefore, hinner⟩ :=
      exists_around rfl (h.inside block List.mem_cons_self)
    obtain ⟨hstart, hend⟩ := hregion before inner last after block rfl hbefore hinner
    obtain ⟨rest, hrest, hblocks⟩ := blocksOf_cons hbefore hinner h
    have hparts : (blocksOf (before ++ inner ++ last :: after) blocks).flatMap g =
        (before.map keep).flatMap g ++ ((inner.map keep).flatMap g ++ body last) ++
          (tail last ++ rest.flatMap g) := by
      rw [hrest]
      simp only [List.map_append, List.flatMap_append, List.map_cons, List.map_nil,
        List.flatMap_singleton, hkeep, List.append_assoc]
    have hcons : spliceAll (fun _ => put) ((block :: blocks).map region)
        (((before ++ inner ++ last :: after).map keep).flatMap g) =
          splice (fun _ => put) (region block)
            ((blocksOf (before ++ inner ++ last :: after) blocks).flatMap g) :=
      congrArg (splice (fun _ => put) (region block)) (ih h.tail)
    rw [hcons, hparts, splice_append hstart, hblocks]
    · simp only [List.flatMap_append, List.flatMap_singleton, hmatched, List.append_assoc]
    · rw [← hend, List.map_append, List.flatMap_append, List.append_assoc]

variable {content : List Char}

/-- **The text with lines replaced.** -/
theorem spliceAll_lineRegions (new : List Char)
    (h : LinesApart (splitInclusive content).length blocks) :
    spliceAll (fun _ => new) (blocks.map (lineRegion content)) content =
      expand new (blocksOf (splitInclusive content) blocks) := by
  have hcontent : ((splitInclusive content).map keep).flatMap (fun b => b.text new ++ b.ending) =
      content := (expand_keep new _).trans (flatten_splitInclusive content)
  refine (congrArg (spliceAll _ _) hcontent.symm).trans
    (spliceAll_blocksOf chomp TextLines.ending (fun p => rfl) (fun p => rfl) ?_ h)
  intro before inner last after block hpieces hbefore hinner
  have hstart : lineStart content block.1 = before.flatten.length := by
    unfold lineStart
    rw [hpieces, ← hbefore, List.append_assoc, List.take_left]
  have hlast : lineStart content block.2 = (before ++ inner).flatten.length := by
    unfold lineStart
    rw [hpieces, ← hinner, List.take_left]
  have htext : (lines content)[block.2]?.getD [] = chomp last := by
    unfold TextLines.lines
    rw [List.getElem?_map, hpieces, ← hinner, List.getElem?_append_right le_rfl, Nat.sub_self]
    rfl
  unfold lineRegion
  rw [hstart, hlast, htext, List.length_append]
  exact ⟨congrArg List.length (expand_keep new before),
    congrArg (List.length · + (chomp last).length) (expand_keep new (before ++ inner))⟩

/-- **The lines of a text with lines replaced.** -/
theorem spliceAll_lines (newLines : List (List Char))
    (h : LinesApart (splitInclusive content).length blocks) :
    spliceAll (fun _ => newLines) (blocks.map fun block => (block.1, block.2 + 1)) (lines content) =
      (blocksOf (splitInclusive content) blocks).flatMap (Block.lines newLines) := by
  have hkeep (pieces : List (List Char)) :
      (pieces.map keep).flatMap (Block.lines newLines) = pieces.map chomp := by
    rw [List.flatMap_map]
    exact List.flatMap_pure_eq_map _ _
  rw [TextLines.lines, ← hkeep]
  refine spliceAll_blocksOf (fun p => [chomp p]) (fun _ => []) (fun p => (List.append_nil _).symm)
    (fun p => (List.append_nil _).symm) ?_ h
  intro before inner last after block _ hbefore hinner
  rw [hkeep, hkeep, List.length_append, List.length_map, List.length_map, hbefore, hinner]
  exact ⟨rfl, rfl⟩

/-! ## Where lines stand -/

theorem lineStart_mono (content : List Char) {k k' : ℕ} (h : k ≤ k') :
    lineStart content k ≤ lineStart content k' :=
  ((List.take_isPrefix_take.mpr (.inl h)).flatten).length_le

theorem lineStart_le (content : List Char) (k : ℕ) : lineStart content k ≤ content.length := by
  conv_rhs => rw [← flatten_splitInclusive content]
  exact ((List.take_prefix k _).flatten).length_le

theorem lineStart_add_line_le {k : ℕ} (h : k < (splitInclusive content).length) :
    lineStart content k + ((lines content)[k]?.getD []).length ≤ lineStart content (k + 1) := by
  have hline : (lines content)[k]?.getD [] = chomp (splitInclusive content)[k] := by
    unfold TextLines.lines
    rw [List.getElem?_map, List.getElem?_eq_getElem h]
    rfl
  have hchomp := congrArg List.length (chomp_append_ending (splitInclusive content)[k]).1
  rw [List.length_append] at hchomp
  unfold lineStart
  rw [hline, ← List.take_concat_get' _ k h, List.flatten_append, List.flatten_singleton,
    List.length_append]
  omega

theorem apart_lineRegions
    (h : LinesApart (splitInclusive content).length blocks) :
    Apart (blocks.map (lineRegion content)) ∧
      ∀ region ∈ blocks.map (lineRegion content), region.2 ≤ content.length := by
  have hline (block : ℕ × ℕ) (hblock : block ∈ blocks) :=
    lineStart_add_line_le (h.inside block hblock).2
  refine ⟨⟨List.forall_mem_map.mpr fun block hblock => ?_, List.pairwise_map.mpr ?_⟩,
    List.forall_mem_map.mpr fun block hblock => (hline block hblock).trans (lineStart_le _ _)⟩
  · exact (lineStart_mono content (h.inside block hblock).1).trans (Nat.le_add_right _ _)
  · refine h.apart.imp_of_mem fun {a b} ha _ hab => ?_
    exact (hline a ha).trans (lineStart_mono content hab)

theorem linesApart_of_apart
    (hinside : ∀ block ∈ blocks, block.1 ≤ block.2 ∧ block.2 < (splitInclusive content).length)
    (hline : ∀ block ∈ blocks, (lines content)[block.2]?.getD [] ≠ [])
    (h : Apart (blocks.map (lineRegion content))) :
    LinesApart (splitInclusive content).length blocks := by
  refine ⟨hinside, (List.pairwise_map.mp h.2).imp_of_mem fun {a b} ha _ hab => ?_⟩
  by_contra hle
  have hmono := lineStart_mono content (Nat.not_lt.mp hle)
  have hpos := List.length_pos_iff.mpr (hline a ha)
  have hregions : lineStart content a.2 + ((lines content)[a.2]?.getD []).length ≤
      lineStart content b.1 := hab
  omega

/-! ## What ends a block -/

/-- Every block but the last has an end. -/
def Ended (blocks : List Block) : Prop := ∀ b ∈ blocks.dropLast, b.ending ≠ []

/-- Every block but the last ends in a newline, and the last in nothing. -/
def PlainEnds : List Block → Prop
  | [] => True
  | [b] => b.ending = []
  | b :: b' :: blocks => b.ending = ['\n'] ∧ PlainEnds (b' :: blocks)

theorem Ended.tail {b : Block} {blocks : List Block} (h : Ended (b :: blocks)) : Ended blocks := by
  cases blocks with
  | nil => exact fun b hb => absurd hb List.not_mem_nil
  | cons b' blocks => exact fun c hc => h c (List.mem_cons_of_mem _ hc)

theorem ended_keep (s : List Char) : Ended ((splitInclusive s).map keep) := by
  intro b hb
  rw [← List.map_dropLast, List.mem_map] at hb
  obtain ⟨piece, hpiece, rfl⟩ := hb
  exact (isPiece_of_mem (List.mem_of_mem_dropLast hpiece)).ending_ne_nil (mem_of_mem_dropLast hpiece)

theorem Ended.merge {a inner rest : List Block} {x y : Block} (h : Ended (a ++ inner ++ [x] ++ rest))
    (hy : y.ending = x.ending) : Ended (a ++ [y] ++ rest) := by
  unfold Ended at h ⊢
  by_cases hrest : rest = []
  · rw [hrest, List.append_nil, List.dropLast_concat] at h ⊢
    exact fun b hb => h b (List.mem_append_left _ hb)
  · rw [List.dropLast_append_of_ne_nil hrest] at h ⊢
    intro b hb
    rw [List.mem_append, List.mem_append, List.mem_singleton] at hb
    rcases hb with (hb | rfl) | hb
    · exact h b (by simp [hb])
    · exact hy ▸ h x (by simp)
    · exact h b (List.mem_append_right _ hb)

theorem ended_blocksOf
    (h : LinesApart (splitInclusive content).length blocks) :
    Ended (blocksOf (splitInclusive content) blocks) := by
  induction blocks with
  | nil => exact ended_keep content
  | cons block blocks ih =>
    obtain ⟨before, inner, last, after, hpieces, hbefore, hinner⟩ :=
      exists_around rfl (h.inside block List.mem_cons_self)
    have hrest := ih h.tail
    rw [hpieces] at h hrest ⊢
    obtain ⟨rest, hblocks, hcons⟩ := blocksOf_cons hbefore hinner h
    rw [hblocks, List.map_append, List.map_append] at hrest
    rw [hcons]
    exact hrest.merge rfl

theorem exists_matched
    (h : LinesApart pieces.length blocks) (hne : blocks ≠ []) :
    ∃ ending, .matched ending ∈ blocksOf pieces blocks := by
  obtain ⟨block, blocks, rfl⟩ := List.exists_cons_of_ne_nil hne
  obtain ⟨before, inner, last, after, rfl, hbefore, hinner⟩ :=
    exists_around rfl (h.inside block List.mem_cons_self)
  obtain ⟨rest, -, hcons⟩ := blocksOf_cons hbefore hinner h
  exact ⟨TextLines.ending last, by rw [hcons]; simp⟩

/-! ## Joined lines -/

section Joined

variable {new' new : List Char} {blocks : List Block}

theorem Block.length_text_le (h : new'.length ≤ new.length) (b : Block) :
    (b.text new').length ≤ (b.text new).length := by
  cases b with
  | kept text ending => exact le_rfl
  | matched ending => exact h

theorem length_unlines_le (hnew : new'.length ≤ new.length) (h : Ended blocks) :
    (unlines (blocks.map (Block.text new'))).length ≤ (expand new blocks).length := by
  induction blocks with
  | nil => exact Nat.le_refl 0
  | cons b blocks ih =>
    have hb := b.length_text_le hnew
    cases blocks with
    | nil =>
      rw [List.map_singleton, unlines_singleton, expand, List.flatMap_singleton, List.length_append]
      exact hb.trans (Nat.le_add_right _ _)
    | cons b' blocks =>
      have hending := List.length_pos_iff.mpr (h b List.mem_cons_self)
      have hrest := ih h.tail
      unfold expand at hrest ⊢
      rw [List.map_cons] at hrest
      rw [List.map_cons, List.map_cons, unlines_cons_cons, List.flatMap_cons, List.length_append,
        List.length_append, List.length_append, List.length_cons]
      omega

/-- **The lines that are joined are the text** exactly when every line ends plainly. -/
theorem unlines_eq_iff (hnew : new'.length ≤ new.length) (h : Ended blocks) :
    unlines (blocks.map (Block.text new')) = expand new blocks ↔
      PlainEnds blocks ∧ ∀ b ∈ blocks, b.text new' = b.text new := by
  induction blocks with
  | nil => exact iff_of_true rfl ⟨trivial, fun b hb => absurd hb List.not_mem_nil⟩
  | cons b blocks ih =>
    have hb := b.length_text_le hnew
    cases blocks with
    | nil =>
      have hexpand : expand new [b] = b.text new ++ b.ending := List.flatMap_singleton _ _
      have hunlines : unlines ([b].map (Block.text new')) = b.text new' := unlines_singleton _
      rw [hexpand, hunlines, List.forall_mem_singleton, PlainEnds]
      constructor
      · intro heq
        have hlength := congrArg List.length heq
        rw [List.length_append] at hlength
        have hending : b.ending = [] := List.length_eq_zero_iff.mp (by omega)
        rw [hending, List.append_nil] at heq
        exact ⟨hending, heq⟩
      · rintro ⟨hending, htext⟩
        rw [hending, htext, List.append_nil]
    | cons b' blocks =>
      have hexpand : expand new (b :: b' :: blocks) =
          b.text new ++ (b.ending ++ expand new (b' :: blocks)) :=
        List.flatMap_cons.trans (List.append_assoc _ _ _)
      have hunlines : unlines ((b :: b' :: blocks).map (Block.text new')) =
          b.text new' ++ '\n' :: unlines ((b' :: blocks).map (Block.text new')) :=
        unlines_cons_cons _ _ _
      rw [hexpand, hunlines, List.forall_mem_cons, PlainEnds]
      constructor
      · intro heq
        have hending := List.length_pos_iff.mpr (h b List.mem_cons_self)
        have hrest := length_unlines_le hnew h.tail
        have hlength := congrArg List.length heq
        rw [List.length_append, List.length_append, List.length_append, List.length_cons] at hlength
        obtain ⟨htext, htail⟩ := List.append_inj heq (by omega)
        obtain ⟨hnewline, htail⟩ := @List.append_inj _ ['\n'] _ _ _ htail
          (by rw [List.length_singleton]; omega)
        obtain ⟨hplain, htexts⟩ := (ih h.tail).mp htail
        exact ⟨⟨hnewline.symm, hplain⟩, htext, htexts⟩
      · rintro ⟨⟨hnewline, hplain⟩, htext, htexts⟩
        rw [hnewline, htext, (ih h.tail).mpr ⟨hplain, htexts⟩]
        rfl

theorem unlines_flatMap {newLines : List (List Char)} (hne : newLines ≠ []) (blocks : List Block) :
    unlines (blocks.flatMap (Block.lines newLines)) =
      unlines (blocks.map (Block.text (unlines newLines))) := by
  have hone (b : Block) : b.lines newLines ≠ [] ∧
      unlines (b.lines newLines) = b.text (unlines newLines) := by
    cases b with
    | kept text ending => exact ⟨List.cons_ne_nil _ _, unlines_singleton _⟩
    | matched ending => exact ⟨hne, rfl⟩
  induction blocks with
  | nil => rfl
  | cons b blocks ih =>
    cases blocks with
    | nil =>
      rw [List.flatMap_singleton, (hone b).2]
      exact (unlines_singleton _).symm
    | cons b' blocks =>
      have hrest : (b' :: blocks).flatMap (Block.lines newLines) ≠ [] := by
        rw [List.flatMap_cons]
        exact List.append_ne_nil_of_left_ne_nil (hone b').1 _
      rw [List.flatMap_cons, unlines_append (hone b).1 hrest, (hone b).2, ih]
      exact (unlines_cons_cons _ _ _).symm

theorem length_removed_le (blocks : List Block) :
    ((blocks.flatMap (Block.lines [])).flatMap (· ++ ['\n'])).length ≤
      ((blocks.map (Block.text [])).flatMap (· ++ ['\n'])).length := by
  induction blocks with
  | nil => exact le_rfl
  | cons b blocks ih =>
    rw [List.flatMap_cons, List.flatMap_append, List.map_cons, List.flatMap_cons, List.length_append,
      List.length_append]
    cases b with
    | kept text ending => exact Nat.add_le_add (by simp [Block.lines, Block.text]) ih
    | matched ending => exact Nat.add_le_add (Nat.zero_le _) ih

theorem length_removed_lt {ending : List Char} (h : .matched ending ∈ blocks) :
    ((blocks.flatMap (Block.lines [])).flatMap (· ++ ['\n'])).length <
      ((blocks.map (Block.text [])).flatMap (· ++ ['\n'])).length := by
  obtain ⟨front, back, rfl⟩ := List.append_of_mem h
  have hfront := length_removed_le front
  have hback := length_removed_le back
  simp only [List.flatMap_append, List.flatMap_cons, List.map_append, List.map_cons, Block.lines,
    Block.text, List.length_append, List.length_cons, List.length_nil, List.nil_append] at hfront hback ⊢
  omega

theorem unlines_removed_eq_iff (hmatched : ∃ ending, .matched ending ∈ blocks) (h : Ended blocks) :
    unlines (blocks.flatMap (Block.lines [])) = expand [] blocks ↔
      PlainEnds blocks ∧ blocks.length = 1 := by
  obtain ⟨ending, hmatched⟩ := hmatched
  by_cases hone : blocks.length = 1
  · obtain ⟨b, rfl⟩ := List.length_eq_one_iff.mp hone
    rw [← List.mem_singleton.mp hmatched]
    have hexpand : expand [] [.matched ending] = ending := List.append_nil ending
    rw [hexpand]
    exact ⟨fun heq => ⟨Eq.symm heq, rfl⟩, fun hplain => Eq.symm hplain.1⟩
  · refine iff_of_false (fun heq => ?_) fun hplain => hone hplain.2
    have hle := @length_unlines_le [] [] blocks le_rfl h
    rw [← heq] at hle
    by_cases hnil : blocks.flatMap (Block.lines []) = []
    · obtain - | ⟨b, - | ⟨b', blocks⟩⟩ := blocks
      · cases hmatched
      · exact hone rfl
      · rw [hnil, List.map_cons, List.map_cons, unlines_cons_cons, List.length_append] at hle
        exact absurd hle (Nat.not_succ_le_zero _)
    · -- a newline less for every match that is removed
      have hlt := length_removed_lt hmatched
      have hne : blocks.map (Block.text []) ≠ [] := List.ne_nil_of_mem (List.mem_map_of_mem hmatched)
      rw [← unlines_newline hnil, ← unlines_newline hne, List.length_append,
        List.length_append] at hlt
      exact absurd (Nat.lt_of_add_lt_add_right hlt) (Nat.not_lt.mpr hle)

/-- **The lines of `new` put for matches and joined are the text** exactly when every line ends
plainly, in `new` too, and nothing is kept beside an empty `new`. -/
theorem unlines_flatMap_eq_iff (hmatched : ∃ ending, .matched ending ∈ blocks) (h : Ended blocks) :
    unlines (blocks.flatMap (Block.lines (lines new))) = expand new blocks ↔
      PlainEnds blocks ∧ unlines (lines new) = new ∧ (new = [] → blocks.length = 1) := by
  by_cases hempty : new = []
  · rw [hempty]
    refine (unlines_removed_eq_iff hmatched h).trans (and_congr_right fun _ => ?_)
    exact ⟨fun hone => ⟨rfl, fun _ => hone⟩, fun hnew => hnew.2 rfl⟩
  · have hplain := expand_keep new (splitInclusive new)
    rw [flatten_splitInclusive] at hplain
    have hle : (unlines (lines new)).length ≤ new.length := by
      have h := @length_unlines_le new new _ le_rfl (ended_keep new)
      rwa [hplain, List.map_map] at h
    have hne : lines new ≠ [] := fun hnil => hempty <| by
      rw [← flatten_splitInclusive new, List.map_eq_nil_iff.mp hnil]
      rfl
    rw [unlines_flatMap hne, unlines_eq_iff hle h]
    refine and_congr_right fun _ => ?_
    constructor
    · intro htexts
      obtain ⟨ending, hmatched⟩ := hmatched
      exact ⟨htexts _ hmatched, fun hnil => absurd hnil hempty⟩
    · rintro ⟨hnew, -⟩ b -
      rw [hnew]

end Joined

end LineBlocks
