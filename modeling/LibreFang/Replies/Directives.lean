import LibreFang.Lib.Slices
import LibreFang.Lib.Pieces

/-!
# Directives in replies

A reply may have directives between `[[` and `]]`. They are taken out of the text as it comes and
collected. Texts are cut at bytes: `none` stands for a slice that panics.

* `consume`: one chunk of a reply; `consumeAll`: a reply in chunks; `parseDirectives`: a whole one.
* **`consumeLoop_spec`**: a chunk is read up to a tag that is not closed.
* **`stripped_iff`**: what is shown and collected does not depend on benign chunks; only without tags
  it never does.
-/

namespace LibreFang.Replies

open Slices Occurrences

/-! ## The accumulator -/

/-- `DirectiveSet`. -/
structure DirectiveSet where
  replyTo : Option (List Char)
  currentThread : Bool
  silent : Bool
  deriving DecidableEq, Repr

/-- `DirectiveSet::default`. -/
def DirectiveSet.default : DirectiveSet := ⟨none, false, false⟩

/-- `StreamingDirectiveAccumulator`. -/
structure StreamingDirectiveAccumulator where
  /-- `partial`. -/
  partialTag : List Char
  directives : DirectiveSet
  deriving DecidableEq, Repr

/-- `StreamingDirectiveAccumulator::new`. -/
def StreamingDirectiveAccumulator.new : StreamingDirectiveAccumulator := ⟨[], .default⟩

/-- `MAX_PARTIAL_LEN`. -/
def maxPartialLen : ℕ := 30

/-- `parse_tag`. -/
def parseTag (directives : DirectiveSet) (content : List Char) : DirectiveSet :=
  let trimmed := Text.trim content
  match stripStart "reply:".toList trimmed with
  | some id =>
    let id := Text.trim id
    if id = [] then directives else { directives with replyTo := some id }
  | none =>
    if trimmed = "@current".toList then { directives with currentThread := true }
    -- `eq_ignore_ascii_case`
    else if trimmed.map Char.toLower = "silent".toList then { directives with silent := true }
    else directives

/-- The loop of `consume`, which skips `skip` characters first: what is shown, the directives, and
what is held back. -/
def consumeLoop (isFinal : Bool) : ℕ → DirectiveSet → List Char →
    Option (List Char × DirectiveSet × List Char)
  | _, directives, [] => some ([], directives, [])
  | skip + 1, directives, _ :: s => consumeLoop isFinal skip directives s
  | 0, directives, ch :: s =>
    let remaining := ch :: s
    let literal := (consumeLoop isFinal 0 directives s).map fun rest => (ch :: rest.1, rest.2)
    match stripStart "[[".toList remaining with
    | some afterOpen =>
      match findStr "]]".toList afterOpen with
      | some stop =>
        (cut stop afterOpen).bind fun halves =>
          let tagLen := 2 + stop + 2
          consumeLoop isFinal (tagLen - 1) (parseTag directives halves.1) s
      | none =>
        if !isFinal && byteLen remaining < maxPartialLen then some ([], directives, remaining)
        else literal
    | none => literal

/-- `consume`. -/
def consume (isFinal : Bool) (acc : StreamingDirectiveAccumulator) (chunk : List Char) :
    Option (List Char × StreamingDirectiveAccumulator) :=
  (consumeLoop isFinal 0 acc.directives (acc.partialTag ++ chunk)).map fun result =>
    if isFinal then (result.1 ++ result.2.2, ⟨[], result.2.1⟩)
    else (result.1, ⟨result.2.2, result.2.1⟩)

/-- A reply in chunks: what is shown, and the directives. -/
def consumeAll (init : List (List Char)) (last : List Char) :
    Option (List Char × DirectiveSet) :=
  (Streams.feed (consume false) .new init).bind fun shown =>
    (consume true shown.2 last).map fun rest => (shown.1 ++ rest.1, rest.2.directives)

/-- `parse_directives`. -/
def parseDirectives (text : List Char) : Option (List Char × DirectiveSet) :=
  (consume true .new text).map fun result => (Text.trim result.1, result.2.directives)

/-! ## The reference -/

/-- A character that is kept, or a tag. -/
inductive Item
  | char (c : Char)
  | tag (content : List Char)
  deriving DecidableEq, Repr

/-- The tag with which a text begins. -/
def closedTag (s : List Char) : Option (List Char) :=
  (stripStart "[[".toList s).bind fun afterOpen =>
    (Text.splitOnceStr "]]".toList afterOpen).map Prod.fst

/-- The characters and tags of a text; the first `skip` characters belong to a tag. -/
def items : ℕ → List Char → List Item
  | _, [] => []
  | skip + 1, _ :: s => items skip s
  | 0, c :: s =>
    match closedTag (c :: s) with
    | some content => .tag content :: items (content.length + 3) s
    | none => .char c :: items 0 s

/-- How an item is written. -/
def Item.spell : Item → List Char
  | char c => [c]
  | tag content => "[[".toList ++ (content ++ "]]".toList)

/-- How items are written. -/
def spell (is : List Item) : List Char := is.flatMap Item.spell

/-- A character is kept. -/
def Item.kept : Item → Option Char
  | char c => some c
  | tag _ => none

/-- The characters that are kept. -/
def visible (is : List Item) : List Char := is.filterMap Item.kept

/-- The directives with those of an item. -/
def Item.collect (directives : DirectiveSet) : Item → DirectiveSet
  | char _ => directives
  | tag content => parseTag directives content

/-- The directives with those of the tags. -/
def collected (directives : DirectiveSet) (is : List Item) : DirectiveSet :=
  is.foldl Item.collect directives

/-- Every `[[` is closed within `MAX_PARTIAL_LEN` bytes. -/
def Closed (text : List Char) : Prop :=
  ∀ x y, text = x ++ ("[[".toList ++ y) → ∃ content z, y = content ++ ("]]".toList ++ z) ∧
    2 + byteLen content + 2 ≤ maxPartialLen

/-- A chunk ends behind this beginning of the text. -/
def Boundary (chunks : List (List Char)) (u : List Char) : Prop :=
  ∃ before after, chunks = before ++ after ∧ before.flatten = u

/-- The characters by which a tag is counted too long. -/
def surplus (content : List Char) : ℕ := byteLen content - content.length

/-- The characters that are taken with a tag are no part of another one. -/
def Followed (text : List Char) : Prop :=
  ∀ before content after, items 0 text = before ++ .tag content :: after →
    ∀ item ∈ after.take (surplus content), ∃ c, item = .char c

/-- No tag of the chunks is read wrong. -/
structure Benign (chunks : List (List Char)) : Prop where
  /-- No chunk ends in the middle of the `[[` of a tag. -/
  opened : ∀ before content after, items 0 chunks.flatten = before ++ .tag content :: after →
    ¬ Boundary chunks (spell before ++ ['['])
  /-- A tag that is counted too long ends a chunk. -/
  counted : ∀ before content after, items 0 chunks.flatten = before ++ .tag content :: after →
    surplus content ≠ 0 → Boundary chunks (spell (before ++ [.tag content]))
  /-- In the whole text a tag that is counted too long is followed by enough characters, or by
  nothing. -/
  followed : Followed chunks.flatten

/-- What is shown is the text without its tags, and the directives are those of the whole text. -/
def Stripped (init : List (List Char)) (last : List Char) : Prop :=
  let text := (init ++ [last]).flatten
  ∃ directives cleaned, consumeAll init last = some (visible (items 0 text), directives) ∧
    parseDirectives text = some (cleaned, directives)

/-! ## Items -/

-- the equations are derived once, before the proofs below that all rewrite with them
attribute [local simp] items in
theorem items_skip (skip : ℕ) (s : List Char) : items skip s = items 0 (s.drop skip) := by
  induction skip generalizing s with
  | zero => rfl
  | succ skip ih =>
    cases s with
    | nil => rfl
    | cons c s => rw [items, ih, List.drop_succ_cons]

theorem closedTag_eq_some {s content : List Char} : closedTag s = some content ↔
    ∃ rest, s = (Item.tag content).spell ++ rest ∧
      ¬ StartsIn "]]".toList content ("]]".toList ++ rest) := by
  have hne : "]]".toList ≠ [] := by decide
  unfold closedTag Item.spell
  rw [Option.bind_eq_some_iff]
  constructor
  · rintro ⟨afterOpen, hopen, hclose⟩
    obtain ⟨⟨_, rest⟩, hsplit, rfl⟩ := Option.map_eq_some_iff.mp hclose
    obtain ⟨heq, hfirst⟩ := (splitOnceStr_eq_some hne).mp hsplit
    refine ⟨rest, ?_, hfirst⟩
    rw [stripStart_eq_some hopen, heq, List.append_assoc, List.append_assoc]
  · rintro ⟨rest, heq, hfirst⟩
    refine ⟨content ++ ("]]".toList ++ rest), ?_, ?_⟩
    · rw [heq, List.append_assoc, List.append_assoc]
      exact stripStart_append _ _
    · rw [(splitOnceStr_eq_some hne).mpr ⟨rfl, hfirst⟩]
      rfl

theorem length_spell_tag (content : List Char) :
    (Item.tag content).spell.length = content.length + 4 := by
  unfold Item.spell
  rw [List.length_append, List.length_append]
  exact Nat.add_comm 2 _

theorem items_tag {content s : List Char}
    (h : closedTag ((Item.tag content).spell ++ s) = some content) :
    items 0 ((Item.tag content).spell ++ s) = .tag content :: items 0 s := by
  obtain ⟨c, rest, hspell⟩ : ∃ c rest, (Item.tag content).spell = c :: rest := ⟨_, _, rfl⟩
  have hlen := length_spell_tag content
  rw [hspell, List.length_cons] at hlen
  have hdrop : (rest ++ s).drop (content.length + 3) = s := by
    rw [← Nat.succ.inj hlen, List.drop_left]
  rw [hspell, List.cons_append] at h ⊢
  rw [items, h]
  dsimp only
  rw [items_skip, hdrop]

variable {s : List Char} {c : Char}

theorem items_char (h : closedTag (c :: s) = none) : items 0 (c :: s) = .char c :: items 0 s := by
  rw [items, h]

theorem Closed.drop {a b : List Char} (h : Closed (a ++ b)) : Closed b := by
  intro x y heq
  refine h (a ++ x) y ?_
  rw [heq, List.append_assoc]

theorem Closed.exists_tag {y : List Char} (h : Closed ("[[".toList ++ y)) :
    ∃ content, closedTag ("[[".toList ++ y) = some content ∧
      2 + byteLen content + 2 ≤ maxPartialLen := by
  obtain ⟨content, z, rfl, hlen⟩ := h [] y rfl
  have hne : "]]".toList ≠ [] := by decide
  obtain ⟨content', rest, hsplit, b, rfl⟩ := exists_splitOnceStr hne content z
  refine ⟨content', ?_, ?_⟩
  · unfold closedTag
    rw [stripStart_append, Option.bind_some, hsplit]
    rfl
  · rw [byteLen_append] at hlen
    omega

theorem Closed.stripStart_eq_none {i r : List Char} (h : Closed (i ++ r))
    (hchar : closedTag (i ++ r) = none) : stripStart "[[".toList i = none := by
  cases hopen : stripStart "[[".toList i with
  | none => rfl
  | some y =>
    rw [stripStart_eq_some hopen, List.append_assoc] at h hchar
    obtain ⟨content, hsome, -⟩ := h.exists_tag
    rw [hchar] at hsome
    cases hsome

/-! ## The loop -/

attribute [local simp] consumeLoop in
theorem consumeLoop_skip (isFinal : Bool) (skip : ℕ) (directives : DirectiveSet) (s : List Char) :
    consumeLoop isFinal skip directives s = consumeLoop isFinal 0 directives (s.drop skip) := by
  induction skip generalizing s with
  | zero => rfl
  | succ skip ih =>
    cases s with
    | nil => rfl
    | cons c s => rw [consumeLoop, ih, List.drop_succ_cons]

theorem consumeLoop_tag (isFinal : Bool) (directives : DirectiveSet) {content s : List Char}
    (h : ¬ StartsIn "]]".toList content ("]]".toList ++ s)) :
    consumeLoop isFinal 0 directives ((Item.tag content).spell ++ s) =
      consumeLoop isFinal 0 (parseTag directives content) (s.drop (surplus content)) := by
  have hne : "]]".toList ≠ [] := by decide
  have hopen : stripStart "[[".toList ((Item.tag content).spell ++ s) =
      some (content ++ ("]]".toList ++ s)) := by
    unfold Item.spell
    rw [List.append_assoc, List.append_assoc]
    exact stripStart_append _ _
  have hfind : findStr "]]".toList (content ++ ("]]".toList ++ s)) = some (byteLen content) := by
    rw [findStr_eq hne, (splitOnceStr_eq_some hne).mpr ⟨rfl, h⟩]
    rfl
  obtain ⟨c, rest, hspell⟩ : ∃ c rest, (Item.tag content).spell = c :: rest := ⟨_, _, rfl⟩
  have hlen := length_spell_tag content
  have hle := length_le_byteLen content
  rw [hspell, List.length_cons] at hlen
  have hdrop : (rest ++ s).drop (2 + byteLen content + 2 - 1) = s.drop (surplus content) := by
    have hskip : 2 + byteLen content + 2 - 1 = rest.length + surplus content := by
      unfold surplus
      omega
    rw [hskip, List.drop_length_add_append]
  rw [hspell, List.cons_append] at hopen ⊢
  rw [consumeLoop, hopen]
  dsimp only
  rw [hfind]
  dsimp only
  rw [cut_append, Option.bind_some, consumeLoop_skip, hdrop]

theorem consumeLoop_char (isFinal : Bool) (directives : DirectiveSet)
    (h : stripStart "[[".toList (c :: s) = none) :
    consumeLoop isFinal 0 directives (c :: s) =
      (consumeLoop isFinal 0 directives s).map fun rest => (c :: rest.1, rest.2) := by
  rw [consumeLoop, h]

theorem consumeLoop_held (directives : DirectiveSet)
    (hfind : findStr "]]".toList s = none) (hlen : byteLen ("[[".toList ++ s) < maxPartialLen) :
    consumeLoop false 0 directives ("[[".toList ++ s) = some ([], directives, "[[".toList ++ s) := by
  have hopen := stripStart_append "[[".toList s
  obtain ⟨c, rest, hcons⟩ : ∃ c rest, "[[".toList ++ s = c :: rest := ⟨_, _, rfl⟩
  rw [hcons] at hopen hlen ⊢
  rw [consumeLoop, hopen]
  dsimp only
  rw [hfind]
  dsimp only
  rw [if_pos]
  exact Bool.and_eq_true_iff.mpr ⟨rfl, decide_eq_true hlen⟩

theorem findStr_of_lt {a content r rest : List Char} (h : a ++ r = content ++ ("]]".toList ++ rest))
    (hfirst : ¬ StartsIn "]]".toList content ("]]".toList ++ rest))
    (hlen : a.length < content.length + 2) : findStr "]]".toList a = none := by
  cases hfind : findStr "]]".toList a with
  | none => rfl
  | some stop =>
    obtain ⟨x, b, rfl, -, -⟩ := exists_of_findStr hfind
    rw [List.length_append, List.length_append, show "]]".toList.length = 2 from rfl] at hlen
    refine absurd ?_ hfirst
    rw [List.append_assoc] at h
    obtain ⟨y, rfl⟩ : x <+: content := List.prefix_of_prefix_length_le ⟨_, h⟩
      (List.prefix_append _ _) (by omega)
    rw [List.append_assoc, List.append_assoc] at h
    replace h := List.append_cancel_left h
    refine ⟨x, y, rfl, ?_, ?_⟩
    · rintro rfl
      rw [List.append_nil] at hlen
      omega
    · rw [← h]
      exact List.prefix_append _ _

theorem spell_cons (item : Item) (is : List Item) : spell (item :: is) = item.spell ++ spell is :=
  List.flatMap_cons

theorem spell_append (is js : List Item) : spell (is ++ js) = spell is ++ spell js :=
  List.flatMap_append

/-- No tag of a chunk is read wrong, with `r` to come. -/
structure Clean (i r : List Char) : Prop where
  opened : ∀ before content after, items 0 (i ++ r) = before ++ .tag content :: after →
    i ≠ spell before ++ ['[']
  counted : ∀ before content after, items 0 (i ++ r) = before ++ .tag content :: after →
    surplus content ≠ 0 → i.length ≤ (spell (before ++ [.tag content])).length

theorem Clean.tail {item : Item} {i r : List Char} (h : Clean (item.spell ++ i) r)
    (hitems : items 0 (item.spell ++ i ++ r) = item :: items 0 (i ++ r)) : Clean i r := by
  constructor
  · rintro before content after heq rfl
    refine h.opened (item :: before) content after ?_ ?_
    · rw [hitems, heq, List.cons_append]
    · rw [spell_cons, List.append_assoc]
  · intro before content after heq hsurplus
    have hle := h.counted (item :: before) content after (by rw [hitems, heq, List.cons_append])
      hsurplus
    rw [List.cons_append, spell_cons, List.length_append, List.length_append] at hle
    exact Nat.le_of_add_le_add_left hle

/-- What is held back is the beginning of a tag. -/
def Begun (p r : List Char) : Prop :=
  p = [] ∨ ∃ content after, items 0 (p ++ r) = .tag content :: after ∧
    p.length < (Item.tag content).spell.length

/-- A chunk is read up to the beginning of a tag. -/
def Reads (isFinal : Bool) (directives : DirectiveSet) (i r : List Char) : Prop :=
  ∃ is p, i = spell is ++ p ∧ items 0 (i ++ r) = is ++ items 0 (p ++ r) ∧ Begun p r ∧
    (isFinal = true → p = []) ∧
    consumeLoop isFinal 0 directives i = some (visible is, collected directives is, p)

variable {directives : DirectiveSet} {isFinal : Bool}

theorem reads_char {s r : List Char}
    (hchar : closedTag (c :: s ++ r) = none) (hclosed : Closed (c :: s ++ r))
    (hrest : Reads isFinal directives s r) : Reads isFinal directives (c :: s) r := by
  obtain ⟨is, p, hs, hitems, hbegun, hp, hloop⟩ := hrest
  have hopen := hclosed.stripStart_eq_none hchar
  refine ⟨.char c :: is, p, ?_, ?_, hbegun, hp, ?_⟩
  · rw [spell_cons, hs]
    rfl
  · rw [List.cons_append] at hchar ⊢
    rw [items_char hchar, hitems, List.cons_append]
  · rw [consumeLoop_char isFinal directives hopen, hloop]
    rfl

theorem reads_tag {content i r : List Char}
    (hfirst : ¬ StartsIn "]]".toList content ("]]".toList ++ i))
    (hitems : items 0 ((Item.tag content).spell ++ i ++ r) = .tag content :: items 0 (i ++ r))
    (hclean : Clean ((Item.tag content).spell ++ i) r)
    (hrest : Reads isFinal (parseTag directives content) i r) :
    Reads isFinal directives ((Item.tag content).spell ++ i) r := by
  have hdrop : i.drop (surplus content) = i := by
    by_cases hsurplus : surplus content = 0
    · rw [hsurplus, List.drop_zero]
    · -- nothing stands behind the tag
      have hend := hclean.counted [] content _ hitems hsurplus
      rw [List.nil_append, spell, List.flatMap_singleton, List.length_append] at hend
      obtain rfl : i = [] := List.length_eq_zero_iff.mp (by omega)
      exact List.drop_nil
  obtain ⟨is, p, hi, hafter, hbegun, hp, hloop⟩ := hrest
  refine ⟨.tag content :: is, p, ?_, ?_, hbegun, hp, ?_⟩
  · rw [spell_cons, List.append_assoc, ← hi]
  · rw [hitems, hafter, List.cons_append]
  · rw [consumeLoop_tag isFinal directives hfirst, hdrop, hloop]
    rfl

theorem reads_held {content i r rest : List Char} (heq : i ++ r = (Item.tag content).spell ++ rest)
    (hfirst : ¬ StartsIn "]]".toList content ("]]".toList ++ rest))
    (hlen : i.length < (Item.tag content).spell.length) (hne : i ≠ []) (hopen : i ≠ ['['])
    (hclosed : Closed (i ++ r)) : Reads false directives i r := by
  have htag : closedTag (i ++ r) = some content := closedTag_eq_some.mpr ⟨rest, heq, hfirst⟩
  have hitems : items 0 (i ++ r) = .tag content :: items 0 rest := by
    rw [heq] at htag ⊢
    exact items_tag htag
  obtain ⟨b, hb⟩ : i <+: (Item.tag content).spell :=
    List.prefix_of_prefix_length_le ⟨r, heq⟩ (List.prefix_append _ _) (Nat.le_of_lt hlen)
  -- a single `[` is excluded, so the text begins with `[[`
  obtain ⟨a, rfl⟩ : "[[".toList <+: i := by
    refine List.prefix_of_prefix_length_le (List.prefix_append _ _) ⟨b, hb⟩ ?_
    cases i with
    | nil => exact absurd rfl hne
    | cons c s =>
      cases s with
      | nil =>
        rw [show c = '[' from (List.cons.inj hb).1] at hopen
        exact absurd rfl hopen
      | cons d s => exact Nat.le_add_left 2 s.length
  have hbytes : byteLen ("[[".toList ++ a) < maxPartialLen := by
    have hclosed' := hclosed
    rw [List.append_assoc] at hclosed' htag
    obtain ⟨content', hsome, hle⟩ := hclosed'.exists_tag
    obtain rfl := Option.some.inj (htag.symm.trans hsome)
    have hspell : byteLen (Item.tag content).spell = 2 + byteLen content + 2 := by
      unfold Item.spell
      rw [byteLen_append, byteLen_append]
      exact (Nat.add_assoc 2 _ 2).symm
    have hmore := congrArg List.length hb
    have hb' := length_le_byteLen b
    rw [← hb, byteLen_append] at hspell
    rw [List.length_append] at hmore
    omega
  have hfind : findStr "]]".toList a = none := by
    unfold Item.spell at heq
    rw [List.append_assoc, List.append_assoc, List.append_assoc] at heq
    refine findStr_of_lt (List.append_cancel_left heq) hfirst ?_
    rw [length_spell_tag, List.length_append, show "[[".toList.length = 2 from rfl] at hlen
    omega
  exact ⟨[], _, rfl, rfl, .inr ⟨content, _, hitems, hlen⟩, fun h => absurd h Bool.false_ne_true,
    consumeLoop_held directives hfind hbytes⟩

/-- **A chunk is read** up to the beginning of a tag. -/
theorem consumeLoop_spec {i r : List Char} (directives : DirectiveSet)
    (hclosed : Closed (i ++ r)) (hclean : Clean i r) (hfinal : isFinal = true → r = []) :
    Reads isFinal directives i r := by
  induction hn : i.length using Nat.strongRecOn generalizing i directives with
  | _ n ih =>
    subst hn
    cases i with
    | nil => exact ⟨[], [], rfl, rfl, .inl rfl, fun _ => rfl, rfl⟩
    | cons c s =>
      cases htag : closedTag (c :: s ++ r) with
      | none =>
        have hitems : items 0 (c :: s ++ r) = .char c :: items 0 (s ++ r) := items_char htag
        exact reads_char htag hclosed (ih s.length (Nat.lt_succ_self _) directives
          (hclosed.drop (a := [c]))
          ((show Clean ((Item.char c).spell ++ s) r from hclean).tail hitems) rfl)
      | some content =>
        obtain ⟨rest, heq, hfirst⟩ := closedTag_eq_some.mp htag
        by_cases hlen : (Item.tag content).spell.length ≤ (c :: s).length
        · obtain ⟨i, hi⟩ : (Item.tag content).spell <+: c :: s :=
            List.prefix_of_prefix_length_le ⟨rest, heq.symm⟩ (List.prefix_append _ _) hlen
          rw [← hi] at hclosed hclean htag heq ih ⊢
          rw [List.append_assoc] at hclosed htag heq
          obtain rfl := List.append_cancel_left heq
          have hitems : items 0 ((Item.tag content).spell ++ i ++ r) =
              .tag content :: items 0 (i ++ r) := by
            rw [List.append_assoc]
            exact items_tag htag
          have hshort : i.length < ((Item.tag content).spell ++ i).length := by
            rw [List.length_append, length_spell_tag]
            omega
          refine reads_tag (fun h => hfirst ?_) hitems hclean
            (ih i.length hshort (parseTag directives content) hclosed.drop (hclean.tail hitems) rfl)
          rw [← List.append_assoc]
          exact h.append_right r
        · -- a part of the tag is still to come, so the chunk is not the last one
          have hlt := Nat.lt_of_not_le hlen
          obtain rfl : isFinal = false := by
            cases isFinal with
            | false => rfl
            | true =>
              rw [hfinal rfl, List.append_nil] at heq
              rw [heq, List.length_append] at hlt
              omega
          have hitems : items 0 (c :: s ++ r) = [] ++ .tag content :: items 0 rest := by
            rw [heq] at htag ⊢
            exact items_tag htag
          exact reads_held heq hfirst hlt (List.cons_ne_nil _ _)
            (hclean.opened [] content _ hitems) hclosed

/-! ## Replies in chunks -/

/-- Before the chunks that are left: what was read, what is held back and the directives. -/
structure Reading (chunks : List (List Char)) (acc : StreamingDirectiveAccumulator)
    (left : List (List Char)) : Prop where
  progress : ∃ done before, chunks = before ++ left ∧ before.flatten = spell done ++ acc.partialTag ∧
    items 0 chunks.flatten = done ++ items 0 (acc.partialTag ++ left.flatten) ∧
    acc.directives = collected .default done
  begun : Begun acc.partialTag left.flatten

theorem Begun.lt_of_tag {p r content : List Char} {before after : List Item} (h : Begun p r)
    (htag : items 0 (p ++ r) = before ++ .tag content :: after) :
    p.length < (spell (before ++ [.tag content])).length := by
  rcases h with rfl | ⟨first, rest, hitems, hlen⟩
  · rw [spell_append, List.length_append, spell, spell, List.flatMap_singleton, length_spell_tag]
    exact Nat.lt_add_left _ (Nat.succ_pos _)
  · rw [hitems] at htag
    cases before with
    | nil =>
      obtain ⟨hfirst, -⟩ := List.cons.inj htag
      rw [List.nil_append, spell, List.flatMap_singleton, ← hfirst]
      exact hlen
    | cons item before =>
      obtain ⟨hfirst, -⟩ := List.cons.inj htag
      rw [List.cons_append, spell_cons, ← hfirst, List.length_append]
      exact Nat.lt_add_right _ hlen

variable {acc : StreamingDirectiveAccumulator}

theorem Reading.clean {chunks left : List (List Char)}
    {chunk : List Char} (hbenign : Benign chunks) (h : Reading chunks acc (chunk :: left)) :
    Clean (acc.partialTag ++ chunk) left.flatten := by
  obtain ⟨done, first, hchunks, hfirst, hitems, -⟩ := h.progress
  have hbegun := h.begun
  rw [List.flatten_cons] at hitems hbegun
  have htotal {before : List Item} {content : List Char} {after : List Item}
      (heq : items 0 (acc.partialTag ++ chunk ++ left.flatten) = before ++ .tag content :: after) :
      items 0 chunks.flatten = (done ++ before) ++ .tag content :: after := by
    rw [hitems, ← List.append_assoc acc.partialTag, heq, List.append_assoc]
  constructor
  · intro before content after heq hend
    refine hbenign.opened _ content after (htotal heq) ⟨first ++ [chunk], left, ?_, ?_⟩
    · rw [hchunks, List.append_assoc, List.singleton_append]
    · rw [List.flatten_append, List.flatten_singleton, hfirst, spell_append, List.append_assoc, hend,
        List.append_assoc]
  · intro before content after heq hsurplus
    obtain ⟨x, y, hxy, hx⟩ := hbenign.counted _ content after (htotal heq) hsurplus
    have hlen := congrArg List.length hx
    rw [List.append_assoc done, spell_append, List.length_append] at hlen
    have hread := congrArg List.length hfirst
    rw [List.length_append] at hread
    rw [hchunks] at hxy
    by_cases hle : x.length ≤ first.length
    · -- the tag would end in what was read
      obtain ⟨m, rfl⟩ : x <+: first :=
        List.prefix_of_prefix_length_le ⟨y, hxy.symm⟩ (List.prefix_append _ _) hle
      have hheld := hbegun.lt_of_tag (by rw [← List.append_assoc, heq])
      rw [List.flatten_append, List.length_append] at hread
      omega
    · obtain ⟨m, rfl⟩ : first ++ [chunk] <+: x := by
        refine List.prefix_of_prefix_length_le ⟨left, ?_⟩ ⟨y, hxy.symm⟩ ?_
        · rw [List.append_assoc, List.singleton_append]
        · rw [List.length_append, List.length_singleton]
          omega
      rw [List.flatten_append, List.flatten_append, List.flatten_singleton, List.length_append,
        List.length_append] at hlen
      rw [List.length_append]
      omega

theorem Reading.step {chunks left : List (List Char)}
    {chunk : List Char} (hclosed : Closed chunks.flatten) (hbenign : Benign chunks)
    (hfinal : isFinal = true → left.flatten = []) (h : Reading chunks acc (chunk :: left)) :
    ∃ is acc', consume isFinal acc chunk = some (visible is, acc') ∧ Reading chunks acc' left ∧
      items 0 (acc.partialTag ++ (chunk ++ left.flatten)) =
        is ++ items 0 (acc'.partialTag ++ left.flatten) ∧
      (isFinal = true → acc'.partialTag = []) := by
  have hclean := h.clean hbenign
  obtain ⟨done, first, hchunks, hfirst, hitems, hdirectives⟩ := h.progress
  have hrest : Closed (acc.partialTag ++ chunk ++ left.flatten) := by
    rw [hchunks, List.flatten_append, hfirst, List.append_assoc] at hclosed
    rw [List.append_assoc]
    exact hclosed.drop
  obtain ⟨is, p, hi, his, hbegun, hp, hloop⟩ :=
    consumeLoop_spec acc.directives hrest hclean hfinal
  rw [List.append_assoc] at his
  refine ⟨is, ⟨p, collected acc.directives is⟩, ?_, ⟨⟨done ++ is, first ++ [chunk], ?_, ?_, ?_, ?_⟩,
    hbegun⟩, his, hp⟩
  · unfold consume
    rw [hloop, Option.map_some]
    cases isFinal with
    | false => rfl
    | true =>
      rw [hp rfl, if_pos rfl]
      exact congrArg (fun out => some (out, _)) (List.append_nil _)
  · rw [hchunks, List.append_assoc, List.singleton_append]
  · rw [List.flatten_append, List.flatten_singleton, hfirst, List.append_assoc, hi, spell_append,
      List.append_assoc]
  · rw [hitems, List.flatten_cons, his, List.append_assoc]
  · rw [hdirectives]
    exact (List.foldl_append ..).symm

/-- What is still to be shown. -/
def future (last : List Char) (acc : StreamingDirectiveAccumulator) (t : List Char) : List Char :=
  visible (items 0 (acc.partialTag ++ (t ++ last)))

theorem visible_append (is js : List Item) : visible (is ++ js) = visible is ++ visible js :=
  List.filterMap_append

theorem Reading.step_future {chunks pieces : List (List Char)}
    {piece last : List Char} (hclosed : Closed chunks.flatten) (hbenign : Benign chunks)
    (h : Reading chunks acc (piece :: (pieces ++ [last]))) :
    ∃ out acc', consume false acc piece = some (out, acc') ∧
      Reading chunks acc' (pieces ++ [last]) ∧
      out.flatMap (fun c => [c]) ++ future last acc' pieces.flatten =
        future last acc (piece ++ pieces.flatten) := by
  obtain ⟨is, acc', hconsume, hacc', his, -⟩ :=
    h.step hclosed hbenign fun hfalse => absurd hfalse Bool.false_ne_true
  refine ⟨visible is, acc', hconsume, hacc', ?_⟩
  rw [List.flatten_append, List.flatten_singleton] at his
  unfold future
  rw [List.append_assoc, his, visible_append, List.flatMap_singleton']

theorem consumeAll_of_benign {init : List (List Char)} {last : List Char}
    (hclosed : Closed (init ++ [last]).flatten) (hbenign : Benign (init ++ [last])) :
    consumeAll init last = some (visible (items 0 (init ++ [last]).flatten),
      collected .default (items 0 (init ++ [last]).flatten)) := by
  have hstart : Reading (init ++ [last]) .new (init ++ [last]) :=
    ⟨⟨[], [], rfl, rfl, rfl, rfl⟩, .inl rfl⟩
  obtain ⟨shown, acc, hfeed, hreading, hshown⟩ := Streams.feed_spec
    (I := fun acc pieces => Reading (init ++ [last]) acc (pieces ++ [last]))
    (fun _ _ _ hacc => hacc.step_future hclosed hbenign) hstart
  obtain ⟨is, acc', hconsume, hacc', his, hp⟩ := hreading.step hclosed hbenign fun _ => rfl
  rw [hp rfl, List.flatten_nil, List.append_nil, List.append_nil, items, List.append_nil] at his
  obtain ⟨done, -, -, -, hitems, hdirectives⟩ := hacc'.progress
  rw [hp rfl, List.flatten_nil, List.append_nil, items, List.append_nil] at hitems
  rw [List.flatMap_singleton', future, future, List.nil_append, his] at hshown
  unfold consumeAll
  rw [hfeed, Option.bind_some, hconsume, Option.map_some, hdirectives, ← hitems]
  dsimp only
  rw [hshown, List.flatten_append, List.flatten_singleton]
  rfl

/-! ## The whole text -/

theorem Followed.of_append {s s' : List Char} (h : Followed s) (is : List Item)
    (hitems : items 0 s = is ++ items 0 s') : Followed s' := by
  intro before content after heq
  exact h (is ++ before) content after (by rw [hitems, heq, List.append_assoc])

theorem items_drop {n : ℕ} (h : ∀ item ∈ (items 0 s).take n, ∃ c, item = .char c) :
    items 0 (s.drop n) = (items 0 s).drop n := by
  induction n generalizing s with
  | zero => rfl
  | succ n ih =>
    cases s with
    | nil => rfl
    | cons c s =>
      cases htag : closedTag (c :: s) with
      | none =>
        rw [items_char htag, List.take_succ_cons, List.forall_mem_cons] at h
        rw [items_char htag, List.drop_succ_cons, List.drop_succ_cons]
        exact ih h.2
      | some content =>
        obtain ⟨rest, heq, -⟩ := closedTag_eq_some.mp htag
        rw [heq] at htag h
        rw [items_tag htag, List.take_succ_cons, List.forall_mem_cons] at h
        obtain ⟨d, hd⟩ := h.1
        cases hd

theorem collected_drop {n : ℕ} {is : List Item} (directives : DirectiveSet)
    (h : ∀ item ∈ is.take n, ∃ c, item = .char c) :
    collected directives (is.drop n) = collected directives is := by
  induction n generalizing is with
  | zero => rfl
  | succ n ih =>
    cases is with
    | nil => rfl
    | cons item is =>
      rw [List.take_succ_cons, List.forall_mem_cons] at h
      obtain ⟨⟨c, rfl⟩, hrest⟩ := h
      exact ih hrest

theorem consumeLoop_followed (directives : DirectiveSet) (hclosed : Closed s)
    (hfollowed : Followed s) :
    ∃ out, consumeLoop true 0 directives s = some (out, collected directives (items 0 s), []) := by
  induction hn : s.length using Nat.strongRecOn generalizing s directives with
  | _ n ih =>
    subst hn
    cases s with
    | nil => exact ⟨[], rfl⟩
    | cons c s =>
      cases htag : closedTag (c :: s) with
      | none =>
        have hopen : stripStart "[[".toList (c :: s) = none := by
          rw [← List.append_nil (c :: s)] at htag hclosed
          exact hclosed.stripStart_eq_none htag
        obtain ⟨out, hloop⟩ := ih s.length (Nat.lt_succ_self _) directives
          (hclosed.drop (a := [c])) (hfollowed.of_append [.char c] (items_char htag)) rfl
        refine ⟨c :: out, ?_⟩
        rw [consumeLoop_char true directives hopen, hloop, items_char htag]
        rfl
      | some content =>
        obtain ⟨rest, heq, hfirst⟩ := closedTag_eq_some.mp htag
        rw [heq] at htag hclosed hfollowed ih ⊢
        have hchars := hfollowed [] content _ (items_tag htag)
        have hdrop := items_drop hchars
        have hshort : (rest.drop (surplus content)).length <
            ((Item.tag content).spell ++ rest).length := by
          rw [List.length_drop, List.length_append, length_spell_tag]
          omega
        have hclosed' : Closed (rest.drop (surplus content)) := by
          have hrest := hclosed.drop
          rw [← List.take_append_drop (surplus content) rest] at hrest
          exact hrest.drop
        have hfollowed' : Followed (rest.drop (surplus content)) := by
          refine hfollowed.of_append (.tag content :: (items 0 rest).take (surplus content)) ?_
          rw [items_tag htag, hdrop, List.cons_append, List.take_append_drop]
        obtain ⟨out, hloop⟩ := ih _ hshort (parseTag directives content) hclosed' hfollowed' rfl
        refine ⟨out, ?_⟩
        rw [consumeLoop_tag true directives hfirst, hloop, hdrop, collected_drop _ hchars,
          items_tag htag]
        rfl

theorem parseDirectives_followed {text : List Char} (hclosed : Closed text)
    (hfollowed : Followed text) :
    ∃ cleaned, parseDirectives text = some (cleaned, collected .default (items 0 text)) := by
  obtain ⟨out, hloop⟩ := consumeLoop_followed .default hclosed hfollowed
  unfold parseDirectives consume
  rw [show StreamingDirectiveAccumulator.new.partialTag ++ text = text from rfl,
    show StreamingDirectiveAccumulator.new.directives = .default from rfl, hloop]
  exact ⟨_, rfl⟩

theorem stripped_of_benign {init : List (List Char)} {last : List Char}
    (hclosed : Closed (init ++ [last]).flatten) (hbenign : Benign (init ++ [last])) :
    Stripped init last := by
  obtain ⟨cleaned, hparse⟩ := parseDirectives_followed hclosed hbenign.followed
  exact ⟨_, cleaned, consumeAll_of_benign hclosed hbenign, hparse⟩

/-! ## Texts that are read right however they are cut -/

theorem visible_char (c : Char) (is : List Item) : visible (.char c :: is) = c :: visible is := rfl

theorem visible_tag (content : List Char) (is : List Item) :
    visible (.tag content :: is) = visible is := rfl

theorem visible_length (s : List Char) : (visible (items 0 s)).length ≤ s.length ∧
    ((visible (items 0 s)).length = s.length → ∀ content, .tag content ∉ items 0 s) := by
  induction hn : s.length using Nat.strongRecOn generalizing s with
  | _ n ih =>
    subst hn
    cases s with
    | nil => exact ⟨le_rfl, fun _ _ => List.not_mem_nil⟩
    | cons c s =>
      cases htag : closedTag (c :: s) with
      | none =>
        obtain ⟨hle, heq⟩ := ih s.length (Nat.lt_succ_self _) s rfl
        rw [items_char htag, visible_char, List.length_cons, List.length_cons]
        refine ⟨Nat.succ_le_succ hle, fun hsame content hmem => ?_⟩
        refine heq (Nat.succ.inj hsame) content ((List.mem_cons.mp hmem).resolve_left fun h => ?_)
        cases h
      | some content =>
        obtain ⟨rest, heq, -⟩ := closedTag_eq_some.mp htag
        rw [heq] at htag ih ⊢
        have hlen : ((Item.tag content).spell ++ rest).length = content.length + 4 + rest.length := by
          rw [List.length_append, length_spell_tag]
        obtain ⟨hle, -⟩ := ih rest.length (by omega) rest rfl
        rw [items_tag htag, visible_tag, hlen]
        exact ⟨by omega, fun hsame => by omega⟩

theorem consume_singleton (isFinal : Bool) (directives : DirectiveSet) (c : Char) :
    consume isFinal ⟨[], directives⟩ [c] = some ([c], ⟨[], directives⟩) := by
  have hopen : stripStart "[[".toList [c] = none := if_neg fun h =>
    Nat.not_succ_le_self 1 h.length_le
  unfold consume
  dsimp only
  rw [List.nil_append, consumeLoop_char isFinal directives hopen]
  cases isFinal with
  | false => rfl
  | true => rfl

theorem feed_singletons (directives : DirectiveSet) (s : List Char) :
    Streams.feed (consume false) ⟨[], directives⟩ (s.map fun c => [c]) =
      some (s, ⟨[], directives⟩) := by
  induction s with
  | nil => rfl
  | cons c s ih =>
    rw [List.map_cons, Streams.feed, consume_singleton, Option.bind_some, ih]
    rfl

theorem consumeAll_singletons (s : List Char) (c : Char) :
    consumeAll (s.map fun d => [d]) [c] = some (s ++ [c], .default) := by
  unfold consumeAll StreamingDirectiveAccumulator.new
  rw [feed_singletons, Option.bind_some, consume_singleton]
  rfl

/-- **However it is cut**, a text is read right exactly where it has no tag, and it is read right for
all cuts where no tag is read wrong. -/
theorem stripped_iff {text : List Char} (hclosed : Closed text) :
    ((∀ init last, (init ++ [last]).flatten = text → Stripped init last) ↔
      ∀ content, .tag content ∉ items 0 text) ∧
    ∀ init last, (init ++ [last]).flatten = text → Benign (init ++ [last]) → Stripped init last := by
  have hsufficient (init : List (List Char)) (last : List Char)
      (htext : (init ++ [last]).flatten = text) (hbenign : Benign (init ++ [last])) :
      Stripped init last := stripped_of_benign (htext ▸ hclosed) hbenign
  refine ⟨⟨fun hall => (visible_length text).2 ?_, fun hnone init last htext => ?_⟩, hsufficient⟩
  · -- the chunks of one character
    rcases List.eq_nil_or_concat' text with rfl | ⟨s, c, rfl⟩
    · rfl
    · have htext : ((s.map fun d => [d]) ++ [[c]]).flatten = s ++ [c] := by
        rw [List.flatten_append, List.flatten_singleton, ← List.flatMap_def, List.flatMap_singleton']
      obtain ⟨directives, cleaned, hshown, -⟩ := hall _ _ htext
      rw [htext] at hshown
      rw [consumeAll_singletons] at hshown
      rw [← (Prod.mk.inj (Option.some.inj hshown)).1]
  · have htag (before : List Item) (content : List Char) (after : List Item) :
        items 0 (init ++ [last]).flatten ≠ before ++ .tag content :: after := by
      intro heq
      refine hnone content ?_
      rw [← htext, heq]
      exact List.mem_append_right _ List.mem_cons_self
    exact hsufficient init last htext ⟨fun _ _ _ heq => absurd heq (htag _ _ _),
      fun _ _ _ heq => absurd heq (htag _ _ _), fun _ _ _ heq => absurd heq (htag _ _ _)⟩

theorem closed_cons (h : Closed s)
    (hopen : "[[".toList <+: c :: s → ∃ content, closedTag (c :: s) = some content ∧
      2 + byteLen content + 2 ≤ maxPartialLen) : Closed (c :: s) := by
  intro x y heq
  cases x with
  | nil =>
    obtain ⟨content, htag, hlen⟩ := hopen ⟨y, heq.symm⟩
    obtain ⟨rest, hspell, -⟩ := closedTag_eq_some.mp htag
    unfold Item.spell at hspell
    rw [heq, List.nil_append, List.append_assoc, List.append_assoc] at hspell
    exact ⟨content, rest, List.append_cancel_left hspell, hlen⟩
  | cons d x => exact h x y (List.cons.inj heq).2

theorem closed_nil : Closed [] := by
  intro x y heq
  cases x with
  | nil => cases heq
  | cons d x => cases heq

theorem boundary_iff {chunks : List (List Char)} {u : List Char} :
    Boundary chunks u ↔ u ∈ chunks.inits.map List.flatten := by
  rw [List.mem_map]
  constructor
  · rintro ⟨before, after, rfl, hu⟩
    exact ⟨before, List.mem_inits _ _ |>.mpr (List.prefix_append _ _), hu⟩
  · rintro ⟨before, hbefore, hu⟩
    obtain ⟨after, hafter⟩ := (List.mem_inits _ _).mp hbefore
    exact ⟨before, after, hafter.symm, hu⟩

theorem eq_of_single_tag {content content' : List Char} {before after : List Item}
    (h : [.char c, .tag content] = before ++ .tag content' :: after) :
    before = [.char c] ∧ content' = content ∧ after = [] := by
  cases before with
  | nil => cases h
  | cons item before =>
    obtain ⟨rfl, h⟩ := List.cons.inj h
    cases before with
    | nil =>
      cases h
      exact ⟨rfl, rfl, rfl⟩
    | cons item before => exact absurd (List.cons.inj h).2 (by simp)

theorem stripped_iff_accent : Closed "a[[é]]".toList ∧
    Benign ["a[[".toList, "é]".toList, "]".toList] ∧
    Stripped ["a[[".toList, "é]".toList] "]".toList := by
  have hclosed : Closed "a[[é]]".toList := by
    refine closed_cons (closed_cons ?_ fun _ => ⟨['é'], by decide, by decide⟩)
      fun h => absurd h (by decide)
    repeat refine closed_cons ?_ fun h => absurd h (by decide)
    exact closed_nil
  have hitems : items 0 "a[[é]]".toList = [.char 'a', .tag ['é']] := by decide
  have hbenign : Benign ["a[[".toList, "é]".toList, "]".toList] := by
    refine ⟨fun before content after heq => ?_, fun before content after heq _ => ?_,
      fun before content after heq => ?_⟩
    · obtain ⟨rfl, rfl, rfl⟩ := eq_of_single_tag (hitems.symm.trans heq)
      rw [boundary_iff]
      decide
    · obtain ⟨rfl, rfl, rfl⟩ := eq_of_single_tag (hitems.symm.trans heq)
      rw [boundary_iff]
      decide
    · obtain ⟨rfl, rfl, rfl⟩ := eq_of_single_tag (hitems.symm.trans heq)
      exact fun item hitem => absurd hitem List.not_mem_nil
  exact ⟨hclosed, hbenign, (stripped_iff hclosed).2 _ _ rfl hbenign⟩

theorem closed_accent : Closed "[[é]]a".toList := by
  refine closed_cons ?_ fun _ => ⟨['é'], by decide, by decide⟩
  repeat refine closed_cons ?_ fun h => absurd h (by decide)
  exact closed_nil

/-- A tag with a letter of two bytes takes the character behind it. -/
theorem accent_not_stripped : Closed "[[é]]a".toList ∧ ¬ Stripped [] "[[é]]a".toList := by
  refine ⟨closed_accent, ?_⟩
  rintro ⟨directives, cleaned, h, -⟩
  have hshown : consumeAll [] "[[é]]a".toList = some ([], .default) := by decide
  rw [hshown] at h
  cases h

/-- A `[` at the end of a chunk is shown, and the tag behind it is not found. -/
example : consumeAll ["[".toList] "[silent]]".toList = some ("[[silent]]".toList, .default) := by
  decide

end LibreFang.Replies
