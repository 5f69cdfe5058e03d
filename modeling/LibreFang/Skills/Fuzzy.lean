import LibreFang.Lib.Occurrences
import LibreFang.Lib.TextLines
import LibreFang.Skills.Evolution

/-!
# Fuzzy replacement

A part of a text is found by six strategies, from strict to loose, and replaced. Places are counted
in characters. `none` stands for a call that panics.

* `mapLines`: a text normalized line by line; `tryNormalizedReplace`: strategies 2 to 4.
* `blockCandidates`, `tryBlockAnchorReplace`: strategy 5.
* `strippedChars`, `tryWhitespaceStrippedReplace`: strategy 6.
* **`fuzzyFindAndReplace`**: all six, and the error if none matches.
-/

namespace LibreFang.Skills

open Text TextLines Occurrences

/-- What a strategy gives: an error, nothing if it does not match, or the new text. -/
abbrev Attempt := Except SkillError (Option FuzzyReplaceResult)

/-! ## Line by line -/

/-- The lines of a text, each normalized. -/
def mapLines (f : List Char → List Char) (s : List Char) : List Char := unlines ((lines s).map f)

/-- A line whose blanks are collapsed to single spaces. -/
def collapse (line : List Char) : List Char := List.intercalate [' '] (splitWhitespace line)

/-- `normalize_whitespace`. -/
def normalizeWhitespace (s : List Char) : List Char := mapLines collapse s

/-- `strip_indent`. -/
def stripIndent (s : List Char) : List Char := mapLines trimStart s

/-- The second pass of `try_normalized_replace`, `done` replacements behind the start and `skip`
lines behind the last one. -/
def rebuild (oldLines : List (List Char)) (new : List Char) (replaceAll : Bool) :
    ℕ → ℕ → List (List Char) → List (List Char) → Option (List (List Char) × ℕ)
  | done, _, [], _ => some ([], done)
  | done, skip + 1, _ :: norm, orig => rebuild oldLines new replaceAll done skip norm orig.tail
  | done, 0, n :: norm, orig =>
    if oldLines.isPrefixOf (n :: norm) && (replaceAll || done == 0) then
      (rebuild oldLines new replaceAll (done + 1) (oldLines.length - 1) norm orig.tail).map
        fun result => (new :: result.1, result.2)
    else
      match orig with
      | [] => none
      | line :: orig =>
        (rebuild oldLines new replaceAll done 0 norm orig).map
          fun result => (line :: result.1, result.2)

/-- `try_normalized_replace`. -/
def tryNormalizedReplace (original normalizedContent normalizedOld new : List Char)
    (replaceAll : Bool) (strategy : MatchStrategy) : Option Attempt :=
  if ¬ normalizedOld <:+: normalizedContent then some (.ok none)
  else
    let normLines := lines normalizedContent
    let oldLines := lines normalizedOld
    if oldLines = [] then some (.ok none)
    else
      let lineMatchCount := (occurrences oldLines normLines).length
      if lineMatchCount = 0 then some (.ok none)
      else if 1 < lineMatchCount ∧ replaceAll = false then
        some (.error (.invalidManifest ("Multiple matches (" ++ toString lineMatchCount ++ ") via " ++
          strategy.name ++ " — set replace_all=true or provide more context")))
      else
        (rebuild oldLines new replaceAll 0 0 normLines (lines original)).map fun result =>
          .ok (some ⟨String.ofList (unlines result.1), result.2, strategy⟩)

/-! ## Block anchors -/

/-- The middle lines are similar enough: half of them are equal for the first match, and seven out
of ten for the others. -/
def similar (first : Bool) (oldMiddle contentMiddle : List (List Char)) : Bool :=
  let matching := ((oldMiddle.zip contentMiddle).filter fun pair => trim pair.1 == trim pair.2).length
  oldMiddle.isEmpty ||
    if first then oldMiddle.length ≤ 2 * matching else 7 * oldMiddle.length ≤ 10 * matching

/-- One round of the search of `try_block_anchor_replace`. -/
def addCandidate (contentLines oldLines : List (List Char)) (candidates : List (ℕ × ℕ))
    (start : ℕ) : List (ℕ × ℕ) :=
  let expectedEnd := start + oldLines.length - 1
  let oldMiddle := (oldLines.take (oldLines.length - 1)).drop 1
  let contentMiddle := (contentLines.take expectedEnd).drop (start + 1)
  if contentLines[start]?.map trim = oldLines.head?.map trim ∧
      contentLines[expectedEnd]?.map trim = oldLines.getLast?.map trim ∧
      oldMiddle.length = contentMiddle.length ∧
      similar candidates.isEmpty oldMiddle contentMiddle = true then
    candidates ++ [(start, expectedEnd)]
  else candidates

/-- The blocks of lines that `try_block_anchor_replace` finds. -/
def blockCandidates (contentLines oldLines : List (List Char)) : List (ℕ × ℕ) :=
  (List.range contentLines.length).foldl (addCandidate contentLines oldLines) []

/-- `Vec::splice` of an inclusive range of lines. -/
def spliceLines (newLines : List (List Char)) (candidate : ℕ × ℕ) :
    Option (List (List Char)) → Option (List (List Char)) :=
  trySplice newLines (candidate.1, candidate.2 + 1)

/-- `try_block_anchor_replace`. -/
def tryBlockAnchorReplace (content old new : List Char) (replaceAll : Bool) : Option Attempt :=
  let oldLines := lines old
  if oldLines.length < 2 then some (.ok none)
  else if oldLines.head?.map trim = some [] ∨ oldLines.getLast?.map trim = some [] then
    some (.ok none)
  else
    let candidates := blockCandidates (lines content) oldLines
    if candidates = [] then some (.ok none)
    else if 1 < candidates.length ∧ replaceAll = false then
      some (.error (.invalidManifest ("Multiple block-anchor matches (" ++
        toString candidates.length ++ ") — set replace_all=true")))
    else
      let toReplace := if replaceAll then candidates else candidates.take 1
      (toReplace.foldr (spliceLines (lines new)) (some (lines content))).map fun resultLines =>
        .ok (some ⟨String.ofList (unlines resultLines), toReplace.length, .blockAnchor⟩)

/-- The characters that are no whitespace, each with its place and the place behind it. -/
def strippedChars (pos : ℕ) : List Char → List (Char × ℕ × ℕ)
  | [] => []
  | c :: s =>
    if isWhitespace c then strippedChars (pos + 1) s
    else (c, pos, pos + 1) :: strippedChars (pos + 1) s

/-- From the first character of a match to its last one. -/
def strippedRange (stripped : List (Char × ℕ × ℕ)) (needleLen charStart : ℕ) : Option (ℕ × ℕ) :=
  stripped[charStart]?.bind fun first =>
    stripped[charStart + needleLen - 1]?.map fun last => (first.2.1, last.2.2)

/-- One round of the replacements, `String::replace_range` of a match. -/
def replaceStripped (stripped : List (Char × ℕ × ℕ)) (needleLen : ℕ) (new : List Char)
    (charStart : ℕ) (newContent : Option (List Char)) : Option (List Char) :=
  (strippedRange stripped needleLen charStart).bind fun range => trySplice new range newContent

/-- `try_whitespace_stripped_replace`. -/
def tryWhitespaceStrippedReplace (content old new : List Char) (replaceAll : Bool) :
    Option Attempt :=
  let stripped := strippedChars 0 content
  let needle := old.filter fun c => !isWhitespace c
  if needle.length = 0 ∨ stripped.length < needle.length then some (.ok none)
  else if needle.length < 3 then some (.ok none)
  else
    let starts := occurrences needle (stripped.map Prod.fst)
    if starts.length = 0 then some (.ok none)
    else if 1 < starts.length ∧ replaceAll = false then
      some (.error (.invalidManifest ("Multiple matches (" ++ toString starts.length ++
        ") via WhitespaceStripped — set replace_all=true or provide more context")))
    else
      let toReplace := if replaceAll then starts else starts.take 1
      (toReplace.foldr (replaceStripped stripped needle.length new) (some content)).map
        fun newContent => .ok (some ⟨String.ofList newContent,
          if replaceAll then starts.length else 1, .whitespaceStripped⟩)

/-! ## The strategies in order -/

/-- `truncate_for_preview`. -/
def truncateForPreview (s : List Char) (maxChars : ℕ) : List Char :=
  let visible (s : List Char) := s.map fun c => if c = '\n' then '⏎' else c
  if s.length ≤ maxChars then visible s else visible (s.take maxChars) ++ ['…']

/-- The error if no strategy matches; `hints` are the closest lines of the content. -/
def notFoundError (hints : List (ℕ × List Char)) (old : List Char) : SkillError :=
  let preview := hints.map fun hint =>
    "  line " ++ toString hint.1 ++ ": " ++ String.ofList (truncateForPreview hint.2 120)
  let suggestion :=
    if hints = [] then "" else "\n\nClosest existing lines:\n" ++ "\n".intercalate preview
  .invalidManifest ("Could not find old_string in content (tried 5 fuzzy strategies). " ++
    "First line of old_string was: \"" ++
    String.ofList (truncateForPreview ((lines old).head?.getD []) 120) ++ "\"." ++ suggestion)

/-- Strategy 1: the text itself. -/
def tryExactReplace (content old new : List Char) (replaceAll : Bool) : Attempt :=
  if old <:+: content then
    let count := (occurrences old content).length
    if 1 < count ∧ replaceAll = false then
      .error (.invalidManifest ("Multiple matches (" ++ toString count ++
        ") for old_string — set replace_all=true or provide more context"))
    else
      let newContent :=
        if replaceAll then replaceChars old new 0 content
        else (splitOnceStr old content).elim content fun parts => parts.1 ++ new ++ parts.2
      .ok (some ⟨String.ofList newContent, if replaceAll then count else 1, .exact⟩)
  else .ok none

/-- A strategy, and what follows if it does not match. -/
def andThen (attempt : Option Attempt) (next : Option (Except SkillError FuzzyReplaceResult)) :
    Option (Except SkillError FuzzyReplaceResult) :=
  attempt.bind fun result =>
    match result with
    | .error e => some (.error e)
    | .ok (some found) => some (.ok found)
    | .ok none => next

/-- `fuzzy_find_and_replace`; `closestLines` are the lines of a text that are closest to another
text, with their numbers. -/
def fuzzyFindAndReplace (closestLines : List Char → List Char → ℕ → List (ℕ × List Char))
    (content old new : List Char) (replaceAll : Bool) :
    Option (Except SkillError FuzzyReplaceResult) :=
  if old = [] then
    some (.error (.invalidManifest
      "old_string cannot be empty — provide the exact text to replace"))
  else
    andThen (some (tryExactReplace content old new replaceAll)) <|
    andThen (tryNormalizedReplace content (mapLines trim content) (mapLines trim old) new replaceAll
      .lineTrimmed) <|
    andThen (tryNormalizedReplace content (normalizeWhitespace content) (normalizeWhitespace old) new
      replaceAll .whitespaceNormalized) <|
    andThen (tryNormalizedReplace content (stripIndent content) (stripIndent old) new replaceAll
      .indentFlexible) <|
    andThen (tryBlockAnchorReplace content old new replaceAll) <|
    andThen (tryWhitespaceStrippedReplace content old new replaceAll) <|
    some (.error (notFoundError (closestLines content old 3) old))

end LibreFang.Skills
