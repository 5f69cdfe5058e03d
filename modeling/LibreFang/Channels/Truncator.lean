import LibreFang.Lib.Bisect
import LibreFang.Lib.Slices

/-!
# Messages cut into chunks

A channel takes messages up to a number of UTF-16 code units; a longer message is sent in chunks.
Texts are cut at bytes: `none` stands for a slice that panics.

* `utf16Len`: the length of a text; `truncateToUtf16Limit`: the longest beginning that fits.
* `nextChunk`: one round of the loop; **`nextChunk_spec`**: it cuts off a chunk that is not empty.
* **`splitToUtf16Chunks`**: the chunks of a text.
-/

namespace LibreFang.Channels

open Slices

/-- The UTF-16 code units of a character. -/
def utf16Units (c : Char) : ℕ := if 0xFFFF < c.toNat then 2 else 1

/-- `utf16_len`. -/
def utf16Len (s : List Char) : ℕ := (s.map utf16Units).sum

/-! ## The longest beginning -/

/-- `char_indices`, from a byte on. -/
def charIndices (i : ℕ) : List Char → List (ℕ × Char)
  | [] => []
  | c :: s => (i, c) :: charIndices (i + c.utf8Size) s

/-- The number of characters that fit, found by bisection. -/
def fittingChars (limit : ℕ) (chars : List (ℕ × Char)) : ℕ :=
  Bisect.lastTrue (fun mid => ((chars.take mid).map fun entry => utf16Units entry.2).sum ≤ limit)
    0 chars.length

/-- `truncate_to_utf16_limit`. -/
def truncateToUtf16Limit (s : List Char) (limit : ℕ) : Option (List Char) :=
  if utf16Len s ≤ limit then some s
  else
    let chars := charIndices 0 s
    let lo := fittingChars limit chars
    let byteEnd :=
      if lo = 0 then 0
      else
        match chars[lo]? with
        | some entry => entry.1
        | none => byteLen s
    (cut byteEnd s).map Prod.fst

/-- The beginnings of the names of entities. -/
def entityStarts : List String :=
  ["a", "am", "amp", "l", "lt", "g", "gt", "q", "qu", "quo", "quot", "n", "nb", "nbs", "nbsp", "#",
    "#x"]

/-- What follows the `&` looks like the beginning of an entity. -/
def isEntityLike (afterAmpersand : List Char) : Bool :=
  entityStarts.any (fun start => start.toList == afterAmpersand) ||
    (match afterAmpersand with
      | '#' :: digits => digits.all Char.isDigit
      | _ => false) ||
    (match afterAmpersand with
      | '#' :: 'x' :: digits => digits.all Text.isAsciiHexdigit
      | _ => false)

/-- `adjust_html_entity_boundary`. -/
def adjustHtmlEntityBoundary (chunk : List Char) : Option (List Char) :=
  match rfind '&' chunk with
  | none => some chunk
  | some pos =>
    (cut pos chunk).bind fun halves =>
      if ';' ∈ halves.2 then some chunk
      else (cut 1 halves.2).map fun tail => if isEntityLike tail.2 then halves.1 else chunk

/-- The byte of the last newline of the beginning that fits, or of the `\r` before it. -/
def splitAt (safe : List Char) : ℕ :=
  match rfind '\n' safe with
  | some nl => if 0 < nl ∧ (bytes safe)[nl - 1]? = some 13 then nl - 1 else nl
  | none => byteLen safe

/-- The newline at the start of the rest is skipped. -/
def skipNewline (rest : List Char) : List Char :=
  ((stripStart ['\r', '\n'] rest).or (stripStart ['\n'] rest)).getD rest

/-- How far a `;` is looked for. -/
def maxEntityLookahead : ℕ := 16

/-- The byte of the first `;` nearby. -/
def findSemicolon (remaining : List Char) : Option ℕ :=
  ((bytes remaining).take maxEntityLookahead).findIdx? (· == 59)

/-- A chunk where the loop would stand still. -/
def forcedChunk (safe remaining : List Char) : Option (List Char × List Char) :=
  if safe = [] then
    cut (remaining.head?.elim (byteLen remaining) Char.utf8Size) remaining
  else
    match findSemicolon remaining with
    | some semi => cut (semi + 1) remaining
    | none => (cut (byteLen safe) remaining).map fun halves => (safe, halves.2)

/-- One round of the loop: the chunk that is pushed, and what remains. -/
def nextChunk (limit : ℕ) (remaining : List Char) : Option (List Char × List Char) :=
  (truncateToUtf16Limit remaining limit).bind fun safe =>
    (cut (splitAt safe) remaining).bind fun halves =>
      (adjustHtmlEntityBoundary halves.1).bind fun chunk =>
        (cut (byteLen chunk) remaining).bind fun pieces =>
          if chunk = [] then forcedChunk safe remaining
          else some (chunk, skipNewline pieces.2)

@[simp] theorem utf16Len_append (s t : List Char) :
    utf16Len (s ++ t) = utf16Len s + utf16Len t := by
  unfold utf16Len
  rw [List.map_append, List.sum_append]

theorem utf16Units_le_two (c : Char) : utf16Units c ≤ 2 := by
  unfold utf16Units
  split <;> omega

theorem utf16Units_le_utf8Size (c : Char) : utf16Units c ≤ c.utf8Size := by
  unfold utf16Units
  by_cases h : 0xFFFF < c.toNat
  · rw [if_pos h, Char.utf8Size_eq_four_iff.mpr h]
    decide
  · rw [if_neg h]
    exact c.utf8Size_pos

theorem utf16Len_le_byteLen (s : List Char) : utf16Len s ≤ byteLen s := by
  induction s with
  | nil => exact le_rfl
  | cons c s ih => exact Nat.add_le_add (utf16Units_le_utf8Size c) ih

theorem length_le_utf16Len (s : List Char) : s.length ≤ utf16Len s := by
  induction s with
  | nil => exact le_rfl
  | cons c s ih =>
    have hunits : 1 ≤ utf16Units c := by
      unfold utf16Units
      split <;> omega
    change s.length + 1 ≤ utf16Units c + utf16Len s
    omega

/-! ## What is cut off -/

theorem length_charIndices (i : ℕ) (s : List Char) : (charIndices i s).length = s.length := by
  induction s generalizing i with
  | nil => rfl
  | cons c s ih => exact congrArg (· + 1) (ih _)

theorem map_take_charIndices (i k : ℕ) (s : List Char) :
    ((charIndices i s).take k).map (fun entry => utf16Units entry.2) =
      (s.take k).map utf16Units := by
  induction s generalizing i k with
  | nil =>
    rw [charIndices, List.take_nil, List.take_nil]
    rfl
  | cons c s ih =>
    cases k with
    | zero => rfl
    | succ k =>
      rw [charIndices, List.take_succ_cons, List.take_succ_cons, List.map_cons, List.map_cons, ih]

theorem getElem?_charIndices (i k : ℕ) (s : List Char) :
    (charIndices i s)[k]? = (s[k]?).map fun c => (i + byteLen (s.take k), c) := by
  induction s generalizing i k with
  | nil => rfl
  | cons c s ih =>
    cases k with
    | zero => rfl
    | succ k =>
      rw [charIndices, List.getElem?_cons_succ, ih, List.getElem?_cons_succ, List.take_succ_cons,
        byteLen_cons, Nat.add_assoc]

theorem utf16Len_take_mono (s : List Char) {m n : ℕ} (h : m ≤ n) :
    utf16Len (s.take m) ≤ utf16Len (s.take n) := by
  obtain ⟨t, ht⟩ := List.take_prefix_take_left (l := s) h
  rw [← ht, utf16Len_append]
  exact Nat.le_add_right _ _

theorem fittingChars_spec (s : List Char) (limit : ℕ) :
    let n := fittingChars limit (charIndices 0 s)
    n ≤ s.length ∧ utf16Len (s.take n) ≤ limit ∧
      ∀ k, n < k → k ≤ s.length → limit < utf16Len (s.take k) := by
  have hfits (k : ℕ) : (((charIndices 0 s).take k).map fun entry => utf16Units entry.2).sum =
      utf16Len (s.take k) := by
    rw [map_take_charIndices]
    rfl
  unfold fittingChars
  simp only [hfits, length_charIndices]
  refine ⟨(Bisect.lastTrue_mem _ (Nat.zero_le _)).2, ?_, fun k hlt hle => ?_⟩
  · have hzero : decide (utf16Len (s.take 0) ≤ limit) = true := decide_eq_true (Nat.zero_le _)
    exact of_decide_eq_true (Bisect.lastTrue_true (p := fun k => utf16Len (s.take k) ≤ limit) hzero)
  · refine not_le.mp (of_decide_eq_false (Bisect.lastTrue_spec
      (p := fun k => utf16Len (s.take k) ≤ limit) ?_ (Nat.zero_le _) hlt hle))
    intro m n hmn hn
    exact decide_eq_true ((utf16Len_take_mono s hmn).trans (of_decide_eq_true hn))

theorem exists_truncate (s : List Char) (limit : ℕ) :
    ∃ n, truncateToUtf16Limit s limit = some (s.take n) ∧ utf16Len (s.take n) ≤ limit ∧
      ∀ k, n < k → k ≤ s.length → limit < utf16Len (s.take k) := by
  unfold truncateToUtf16Limit
  by_cases hfits : utf16Len s ≤ limit
  · rw [if_pos hfits]
    refine ⟨s.length, by rw [List.take_length], by rwa [List.take_length], fun k hlt hle => ?_⟩
    exact absurd hlt (not_lt.mpr hle)
  · rw [if_neg hfits]
    obtain ⟨hlen, hle, hmax⟩ := fittingChars_spec s limit
    dsimp only
    generalize fittingChars limit (charIndices 0 s) = n at hlen hle hmax ⊢
    refine ⟨n, ?_, hle, hmax⟩
    -- the byte looked up is the length of the first `n` characters
    have hbyte : (if n = 0 then 0
        else
          match (charIndices 0 s)[n]? with
          | some entry => entry.1
          | none => byteLen s) = byteLen (s.take n) := by
      by_cases hzero : n = 0
      · rw [if_pos hzero, hzero]
        rfl
      · rw [if_neg hzero, getElem?_charIndices]
        rcases hlen.lt_or_eq with hlt | rfl
        · rw [List.getElem?_eq_getElem hlt]
          exact Nat.zero_add _
        · rw [List.getElem?_eq_none le_rfl, List.take_length]
          rfl
    rw [hbyte]
    have hcut := cut_append (s.take n) (s.drop n)
    rw [List.take_append_drop] at hcut
    rw [hcut]
    rfl

theorem truncate_eq {limit : ℕ} {s t : List Char} (hfits : utf16Len s ≤ limit)
    (hmax : ∀ c ∈ t.head?, limit < utf16Len (s ++ [c])) :
    truncateToUtf16Limit (s ++ t) limit = some s := by
  obtain ⟨n, htruncate, hle, hlongest⟩ := exists_truncate (s ++ t) limit
  rw [htruncate]
  congr 1
  rcases lt_trichotomy n s.length with hlt | rfl | hlt
  · have hlong := hlongest s.length hlt (by rw [List.length_append]; omega)
    rw [List.take_left] at hlong
    omega
  · exact List.take_left
  · cases t with
    | nil =>
      rw [List.append_nil]
      exact List.take_of_length_le hlt.le
    | cons c t =>
      have hmono := utf16Len_take_mono (s ++ c :: t) (Nat.succ_le_of_lt hlt)
      have hone : (s ++ c :: t).take (s.length + 1) = s ++ [c] := by
        rw [List.take_length_add_append]
        rfl
      rw [Nat.succ_eq_add_one, hone] at hmono
      have hlong := hmax c rfl
      omega

theorem exists_adjust (chunk : List Char) :
    ∃ a b, adjustHtmlEntityBoundary chunk = some a ∧ chunk = a ++ b := by
  unfold adjustHtmlEntityBoundary
  cases hpos : rfind '&' chunk with
  | none => exact ⟨chunk, [], rfl, (List.append_nil _).symm⟩
  | some pos =>
    obtain ⟨a, b, rfl, rfl⟩ := exists_of_rfind hpos
    dsimp only
    rw [cut_append, Option.bind_some]
    by_cases hclosed : ';' ∈ '&' :: b
    · exact ⟨a ++ '&' :: b, [], if_pos hclosed, (List.append_nil _).symm⟩
    · rw [if_neg hclosed]
      have htail : cut 1 ('&' :: b) = some (['&'], b) := cut_append ['&'] b
      rw [htail, Option.map_some]
      by_cases hentity : isEntityLike b = true
      · exact ⟨a, '&' :: b, by rw [if_pos hentity], rfl⟩
      · exact ⟨a ++ '&' :: b, [], by rw [if_neg hentity], (List.append_nil _).symm⟩

theorem exists_splitAt (safe : List Char) : ∃ a b, safe = a ++ b ∧ byteLen a = splitAt safe := by
  unfold splitAt
  cases hnl : rfind '\n' safe with
  | none => exact ⟨safe, [], (List.append_nil _).symm, rfl⟩
  | some nl =>
    dsimp only
    by_cases hcr : 0 < nl ∧ (bytes safe)[nl - 1]? = some 13
    · rw [if_pos hcr]
      obtain ⟨a, c, t, rfl, hlen, -⟩ := exists_char_of_byte hcr.2 (by decide)
      exact ⟨a, c :: t, rfl, hlen⟩
    · rw [if_neg hcr]
      obtain ⟨a, b, rfl, hlen⟩ := exists_of_rfind hnl
      exact ⟨a, '\n' :: b, rfl, hlen⟩

/-- Nothing, or one newline. -/
def IsNewline (sep : List Char) : Prop := sep = [] ∨ sep = ['\n'] ∨ sep = ['\r', '\n']

theorem exists_skipNewline (rest : List Char) :
    ∃ sep, IsNewline sep ∧ rest = sep ++ skipNewline rest := by
  unfold skipNewline
  cases hcrlf : stripStart ['\r', '\n'] rest with
  | some t => exact ⟨_, .inr (.inr rfl), stripStart_eq_some hcrlf⟩
  | none =>
    cases hlf : stripStart ['\n'] rest with
    | some t => exact ⟨_, .inr (.inl rfl), stripStart_eq_some hlf⟩
    | none => exact ⟨[], .inl rfl, rfl⟩

/-! ## One round -/

/-- The chunk and the rest of a round: the text is the chunk, a newline that is skipped or nothing,
and the rest. -/
structure Cuts (limit : ℕ) (remaining chunk sep rest : List Char) : Prop where
  eq_append : remaining = chunk ++ (sep ++ rest)
  isNewline : IsNewline sep
  ne_nil : chunk ≠ []
  fits : maxEntityLookahead ≤ limit → utf16Len chunk ≤ limit

variable {limit : ℕ} {safe remaining : List Char}

theorem exists_of_findSemicolon {semi : ℕ} (h : findSemicolon remaining = some semi) :
    ∃ a t, remaining = a ++ ';' :: t ∧ byteLen a = semi ∧ semi < maxEntityLookahead := by
  obtain ⟨hlt, heq, -⟩ := List.findIdx?_eq_some_iff_getElem.mp h
  have hbyte : (bytes remaining)[semi]? = some 59 := by
    rw [List.getElem_take, beq_iff_eq] at heq
    exact List.getElem?_eq_some_iff.mpr ⟨_, heq⟩
  obtain ⟨a, c, t, rfl, hlen, hc⟩ := exists_char_of_byte hbyte (by decide)
  have hsemi : c = ';' := Char.toNat_inj.mp hc.symm
  rw [List.length_take] at hlt
  exact ⟨a, t, by rw [hsemi], hlen, hlt.trans_le (Nat.min_le_left _ _)⟩

theorem exists_forcedChunk (hne : remaining ≠ []) {tail : List Char}
    (hsafe : remaining = safe ++ tail) (hfits : utf16Len safe ≤ limit)
    (hempty : safe = [] → limit < 2) :
    ∃ chunk rest, forcedChunk safe remaining = some (chunk, rest) ∧
      Cuts limit remaining chunk [] rest := by
  unfold forcedChunk
  by_cases hnil : safe = []
  · rw [if_pos hnil]
    cases remaining with
    | nil => exact absurd rfl hne
    | cons c rest =>
      refine ⟨[c], rest, cut_append [c] rest, rfl, .inl rfl, List.cons_ne_nil _ _, fun hlimit => ?_⟩
      have hlt := hempty hnil
      unfold maxEntityLookahead at hlimit
      omega
  · rw [if_neg hnil]
    cases hsemi : findSemicolon remaining with
    | some semi =>
      obtain ⟨a, t, rfl, rfl, hlt⟩ := exists_of_findSemicolon hsemi
      have hlen : byteLen (a ++ [';']) = byteLen a + 1 := byteLen_append a [';']
      refine ⟨a ++ [';'], t, ?_, ?_, .inl rfl, List.append_ne_nil_of_right_ne_nil _
        (List.cons_ne_nil _ _), fun hlimit => ?_⟩
      · have hcut := cut_append (a ++ [';']) t
        rwa [hlen, List.append_assoc] at hcut
      · rw [List.append_assoc]
        rfl
      · exact (utf16Len_le_byteLen _).trans (hlen ▸ (Nat.succ_le_of_lt hlt).trans hlimit)
    | none =>
      subst hsafe
      exact ⟨safe, tail, by dsimp only; rw [cut_append]; rfl, rfl, .inl rfl, hnil, fun _ => hfits⟩

theorem nextChunk_eq {tail a b chunk dropped : List Char}
    (htruncate : truncateToUtf16Limit remaining limit = some safe)
    (hsafe : remaining = safe ++ tail) (hab : safe = a ++ b) (hsplit : byteLen a = splitAt safe)
    (hadjust : adjustHtmlEntityBoundary a = some chunk) (hchunk : a = chunk ++ dropped) :
    nextChunk limit remaining =
      if chunk = [] then forcedChunk safe remaining
      else some (chunk, skipNewline (dropped ++ (b ++ tail))) := by
  have hcut : remaining = a ++ (b ++ tail) := by rw [hsafe, hab, List.append_assoc]
  have hpieces : remaining = chunk ++ (dropped ++ (b ++ tail)) := by
    rw [hcut, hchunk, List.append_assoc]
  have hfirst := cut_append a (b ++ tail)
  have hsecond := cut_append chunk (dropped ++ (b ++ tail))
  rw [← hcut, hsplit] at hfirst
  rw [← hpieces] at hsecond
  unfold nextChunk
  rw [htruncate, Option.bind_some, hfirst, Option.bind_some, hadjust, Option.bind_some, hsecond,
    Option.bind_some]

theorem truncate_ne_nil (hne : remaining ≠ []) (hlimit : 2 ≤ limit)
    (htruncate : truncateToUtf16Limit remaining limit = some safe) : safe ≠ [] := by
  obtain ⟨n, hn, -, hmax⟩ := exists_truncate remaining limit
  obtain rfl := Option.some.inj (htruncate.symm.trans hn)
  cases remaining with
  | nil => exact absurd rfl hne
  | cons c rest =>
    cases n with
    | zero =>
      have hone := (hmax 1 Nat.one_pos (Nat.succ_le_succ (Nat.zero_le _))).trans_le
        (utf16Units_le_two c)
      omega
    | succ n => exact List.cons_ne_nil _ _

/-- **One round** cuts off a chunk that is not empty, and fits if there is room for an entity. -/
theorem nextChunk_spec (limit : ℕ) (hne : remaining ≠ []) : ∃ chunk sep rest,
    nextChunk limit remaining = some (chunk, rest) ∧ Cuts limit remaining chunk sep rest := by
  obtain ⟨n, htruncate, hfits, -⟩ := exists_truncate remaining limit
  have hsafe : remaining = remaining.take n ++ remaining.drop n := (List.take_append_drop ..).symm
  have hempty : remaining.take n = [] → limit < 2 := fun hnil =>
    not_le.mp fun hlimit => truncate_ne_nil hne hlimit htruncate hnil
  generalize remaining.take n = safe at *
  generalize remaining.drop n = tail at hsafe
  obtain ⟨a, b, hab, hsplit⟩ := exists_splitAt safe
  obtain ⟨chunk, dropped, hadjust, hchunk⟩ := exists_adjust a
  rw [nextChunk_eq htruncate hsafe hab hsplit hadjust hchunk]
  by_cases hnil : chunk = []
  · rw [if_pos hnil]
    obtain ⟨forced, rest, hforced, hcuts⟩ := exists_forcedChunk hne hsafe hfits hempty
    exact ⟨forced, [], rest, hforced, hcuts⟩
  · rw [if_neg hnil]
    obtain ⟨sep, hsep, hrest⟩ := exists_skipNewline (dropped ++ (b ++ tail))
    refine ⟨chunk, sep, _, rfl, ?_, hsep, hnil, fun _ => ?_⟩
    · rw [← hrest, hsafe, hab, hchunk, List.append_assoc, List.append_assoc]
    · rw [hab, hchunk, utf16Len_append, utf16Len_append] at hfits
      omega

theorem length_lt_of_nextChunk {chunk rest : List Char} (hne : remaining ≠ [])
    (h : nextChunk limit remaining = some (chunk, rest)) : rest.length < remaining.length := by
  obtain ⟨chunk', sep, rest', hnext, hcuts⟩ := nextChunk_spec limit hne
  rw [h] at hnext
  injection hnext with hpair
  injection hpair with hchunk hrest
  have hpos := List.length_pos_of_ne_nil hcuts.ne_nil
  rw [hcuts.eq_append, List.length_append, List.length_append, hrest]
  omega

/-! ## The chunks -/

/-- The loop of `split_to_utf16_chunks`. -/
def splitLoop (limit : ℕ) (remaining : List Char) : Option (List (List Char)) :=
  if _ : remaining = [] then some []
  else if utf16Len remaining ≤ limit then some [remaining]
  else
    match _ : nextChunk limit remaining with
    | none => none
    | some (chunk, rest) => (splitLoop limit rest).map (chunk :: ·)
termination_by remaining.length
decreasing_by exact length_lt_of_nextChunk ‹_› ‹_›

/-- `split_to_utf16_chunks`. -/
def splitToUtf16Chunks (s : List Char) (limit : ℕ) : Option (List (List Char)) :=
  if utf16Len s ≤ limit then some [s] else splitLoop limit s

/-- The chunks, each with the newline that is skipped after it, make up the text. -/
structure Covers (limit : ℕ) (s : List Char) (chunks : List (List Char)) : Prop where
  exists_pieces : ∃ pieces : List (List Char × List Char), chunks = pieces.map Prod.fst ∧
    s = pieces.flatMap (fun piece => piece.1 ++ piece.2) ∧ ∀ piece ∈ pieces, IsNewline piece.2
  fits : maxEntityLookahead ≤ limit → ∀ chunk ∈ chunks, utf16Len chunk ≤ limit

theorem Covers.single (h : utf16Len remaining ≤ limit) : Covers limit remaining [remaining] where
  exists_pieces := ⟨[(remaining, [])], rfl, by simp, by
    intro piece hmem
    rw [List.mem_singleton.mp hmem]
    exact .inl rfl⟩
  fits := fun _ chunk hmem => by rwa [List.mem_singleton.mp hmem]

theorem Covers.cons {chunk sep rest : List Char} {chunks : List (List Char)}
    (hcuts : Cuts limit remaining chunk sep rest) (h : Covers limit rest chunks) :
    Covers limit remaining (chunk :: chunks) where
  exists_pieces := by
    obtain ⟨pieces, rfl, rfl, hnewline⟩ := h.exists_pieces
    refine ⟨(chunk, sep) :: pieces, rfl, ?_, ?_⟩
    · rw [hcuts.eq_append, List.flatMap_cons, List.append_assoc]
    · exact List.forall_mem_cons.mpr ⟨hcuts.isNewline, hnewline⟩
  fits := fun hlimit => List.forall_mem_cons.mpr ⟨hcuts.fits hlimit, h.fits hlimit⟩

theorem exists_splitLoop (limit : ℕ) (remaining : List Char) :
    ∃ chunks, splitLoop limit remaining = some chunks ∧ Covers limit remaining chunks := by
  induction hlen : remaining.length using Nat.strongRecOn generalizing remaining with
  | _ n ih =>
    rw [splitLoop]
    by_cases hne : remaining = []
    · rw [dif_pos hne]
      exact ⟨[], rfl, ⟨[], rfl, hne, fun _ h => absurd h List.not_mem_nil⟩,
        fun _ _ h => absurd h List.not_mem_nil⟩
    · rw [dif_neg hne]
      by_cases hfits : utf16Len remaining ≤ limit
      · rw [if_pos hfits]
        exact ⟨[remaining], rfl, .single hfits⟩
      · rw [if_neg hfits]
        obtain ⟨chunk, sep, rest, hnext, hcuts⟩ := nextChunk_spec limit hne
        have hlt := length_lt_of_nextChunk hne hnext
        obtain ⟨chunks, hloop, hcovers⟩ := ih rest.length (hlen ▸ hlt) rest rfl
        refine ⟨chunk :: chunks, ?_, hcovers.cons hcuts⟩
        split
        next hnone => rw [hnone] at hnext; cases hnext
        next chunk' rest' hsome =>
          rw [hsome] at hnext
          injection hnext with hpair
          injection hpair with hchunk hrest
          rw [hrest, hloop, hchunk]
          rfl

/-- **Splitting loses nothing and respects the limit.** The chunks and the newlines skipped between
them make up the text, and every chunk fits. -/
theorem splitToUtf16Chunks_covers (s : List Char) {limit : ℕ} (h : 16 ≤ limit) :
    ∃ pieces : List (List Char × List Char),
      splitToUtf16Chunks s limit = some (pieces.map Prod.fst) ∧
      s = pieces.flatMap (fun piece => piece.1 ++ piece.2) ∧
      ∀ piece ∈ pieces, utf16Len piece.1 ≤ limit ∧
        (piece.2 = [] ∨ piece.2 = ['\n'] ∨ piece.2 = ['\r', '\n']) := by
  have hsplit : ∃ chunks, splitToUtf16Chunks s limit = some chunks ∧ Covers limit s chunks := by
    unfold splitToUtf16Chunks
    by_cases hfits : utf16Len s ≤ limit
    · rw [if_pos hfits]
      exact ⟨[s], rfl, .single hfits⟩
    · rw [if_neg hfits]
      exact exists_splitLoop limit s
  obtain ⟨chunks, heq, hcovers⟩ := hsplit
  obtain ⟨pieces, rfl, hs, hnewline⟩ := hcovers.exists_pieces
  refine ⟨pieces, heq, hs, fun piece hmem => ⟨?_, hnewline piece hmem⟩⟩
  exact hcovers.fits h _ (List.mem_map_of_mem hmem)

/-- A text that is cut at its newline. -/
theorem splitToUtf16Chunks_covers_line :
    ∃ pieces : List (List Char × List Char),
      splitToUtf16Chunks "first line\r\nsecond line".toList 16 = some (pieces.map Prod.fst) ∧
      "first line\r\nsecond line".toList = pieces.flatMap (fun piece => piece.1 ++ piece.2) ∧
      ∀ piece ∈ pieces, utf16Len piece.1 ≤ 16 ∧
        (piece.2 = [] ∨ piece.2 = ['\n'] ∨ piece.2 = ['\r', '\n']) :=
  splitToUtf16Chunks_covers _ le_rfl

end LibreFang.Channels
