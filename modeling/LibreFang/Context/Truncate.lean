import Mathlib.Data.Rat.Floor
import LibreFang.Lib.Slices

/-!
# Truncated tool results

A tool result that is too long is shortened to its two ends, or to its beginning, and a line says
so. How many bytes an end may have is estimated from the average width of the characters. Texts are
cut at bytes: `none` stands for a slice that panics.

* `ContextBudget`: the caps of a context window.
* **`truncations_capped`**: where it has room, a truncation does what it is for.
-/

namespace LibreFang.Context

open Slices

/-! ## Caps -/

/-- `ContextBudget`. -/
structure ContextBudget where
  contextWindowTokens : ℕ
  toolCharsPerToken : ℚ

/-- `ContextBudget::new`. -/
def ContextBudget.ofTokens (contextWindowTokens : ℕ) : ContextBudget := ⟨contextWindowTokens, 2⟩

variable (budget : ContextBudget)

/-- A number of tokens in characters of tool results. -/
def ContextBudget.toolChars (tokens : ℕ) : ℕ := ⌊(tokens : ℚ) * budget.toolCharsPerToken⌋₊

/-- `ContextBudget::per_result_cap`. -/
def ContextBudget.perResultCap : ℕ := budget.toolChars (budget.contextWindowTokens * 3 / 10)

/-- `ContextBudget::single_result_max`. -/
def ContextBudget.singleResultMax : ℕ := budget.toolChars (budget.contextWindowTokens * 5 / 10)

/-- `ContextBudget::total_tool_headroom_chars`. -/
def ContextBudget.totalToolHeadroomChars : ℕ :=
  budget.toolChars (budget.contextWindowTokens * 75 / 100)

/-- `find_safe_break_before`. -/
def findSafeBreakBefore (content : List Char) (pos : ℕ) : Option ℕ :=
  let safe := floorBoundary content (min pos (byteLen content))
  let ss := floorBoundary content (safe - 200)
  (slice content ss safe).map fun part => (rfind '\n' part).elim safe (ss + ·)

/-- `find_safe_break_after`. -/
def findSafeBreakAfter (content : List Char) (pos : ℕ) : Option ℕ :=
  let safe := ceilBoundary content (min pos (byteLen content))
  let se := ceilBoundary content (min (safe + 200) (byteLen content))
  (slice content safe se).map fun part => (find '\n' part).elim safe (safe + · + 1)

/-! ## Truncations -/

/-- `TRUNCATION_MARKER`. -/
def truncationMarker : List Char := "\n\n[...truncated middle...]\n\n".toList

/-- A number in a message. -/
def decimal (n : ℕ) : List Char := Nat.toDigits 10 n

/-- The bytes that a number of characters of the text have on the average. -/
def averageBytes (content : List Char) (chars : ℕ) : ℕ := chars * byteLen content / content.length

/-- The share of the head in the characters that are kept. -/
def headChars (usable : ℕ) : ℕ := usable * 3 / 5

/-- The first 60 and the last 40 percent of what a cap leaves after a reserve; the lines say how
much of the text there is. Both truncations to a cap do this. -/
def truncateEnds (content : List Char) (cap reserve : ℕ) (headLine : ℕ → List Char)
    (endsLine : ℕ → ℕ → List Char) : Option (List Char) :=
  if content.length ≤ cap then some content
  else
    let usable := cap - (truncationMarker.length + reserve)
    let headByteBudget := averageBytes content (headChars usable)
    let tailByteBudget := averageBytes content (usable - headChars usable)
    (findSafeBreakBefore content headByteBudget).bind fun headEnd =>
      (findSafeBreakAfter content (byteLen content - tailByteBudget)).bind fun tailStart =>
        if tailStart ≤ headEnd then
          (findSafeBreakBefore content (averageBytes content (cap - reserve))).bind fun breakPoint =>
            (cut breakPoint content).map fun halves => halves.1 ++ headLine halves.1.length
        else
          (cut headEnd content).bind fun head =>
            (cut tailStart content).map fun tail =>
              head.1 ++ truncationMarker ++ tail.2 ++ endsLine head.1.length tail.2.length

/-- The line that `truncate_tool_result_dynamic` adds. -/
def truncatedLine (charCount : ℕ) (shown : List Char) : List Char :=
  "\n\n[TRUNCATED: result was ".toList ++ decimal charCount ++ " chars, showing first ".toList ++
    shown ++ " (budget: ".toList ++ decimal 30 ++ "% of ".toList ++
    decimal (budget.contextWindowTokens / 1000) ++ "K context window)]".toList

/-- `truncate_tool_result_dynamic`. -/
def truncateToolResultDynamic (content : List Char) : Option (List Char) :=
  truncateEnds content budget.perResultCap 100
    (fun head => truncatedLine budget content.length (decimal head))
    fun head tail => truncatedLine budget content.length
      (decimal head ++ " + last ".toList ++ decimal tail)

/-- The line that `truncate_to` adds. -/
def compactedLine (charCount kept : ℕ) (how : String) : List Char :=
  "\n\n[COMPACTED: ".toList ++ decimal charCount ++ " -> ".toList ++ decimal kept ++
    " chars by context guard".toList ++ how.toList ++ "]".toList

/-- `truncate_to`. -/
def truncateTo (content : List Char) (maxChars : ℕ) : Option (List Char) :=
  truncateEnds content maxChars 80 (fun head => compactedLine content.length head "")
    fun head tail => compactedLine content.length (head + tail) " (head+tail)"

/-- `tool_truncation_limit`. -/
def toolTruncationLimit : ℕ := 2000

/-- The line that the third stage of overflow recovery adds. -/
def overflowLine (charCount kept : ℕ) : List Char :=
  "\n\n[OVERFLOW RECOVERY: truncated from ".toList ++ decimal charCount ++ " to ".toList ++
    decimal kept ++ " chars]".toList

/-- What the third stage of overflow recovery makes of a tool result. -/
def overflowTruncate (content : List Char) : Option (List Char) :=
  if content.length ≤ toolTruncationLimit then some content
  else
    let safeKeep := floorBoundary content
      (min (averageBytes content (toolTruncationLimit - 80)) (byteLen content))
    (cut safeKeep content).map fun halves =>
      halves.1 ++ overflowLine content.length halves.1.length

/-! ## What is kept -/

section Kept

variable {content : List Char}

theorem findSafeBreakBefore_spec (content : List Char) (pos : ℕ) :
    ∃ a b, content = a ++ b ∧ findSafeBreakBefore content pos = some (byteLen a) ∧
      byteLen a ≤ pos := by
  unfold findSafeBreakBefore
  set safe := floorBoundary content (min pos (byteLen content)) with hsafe
  have hpos : safe ≤ pos := (floorBoundary_le _ _).trans (min_le_left _ _)
  have hss : floorBoundary content (safe - 200) ≤ safe :=
    (floorBoundary_le _ _).trans (Nat.sub_le _ _)
  obtain ⟨a, m, b, hcontent, ha, ham, hslice⟩ :=
    exists_slice (isBoundary_floorBoundary _ _) (isBoundary_floorBoundary _ _) hss
  simp only [← hsafe] at hslice ham ⊢
  rw [hslice, Option.map_some]
  cases hfind : rfind '\n' m with
  | none => exact ⟨a ++ m, b, hcontent, congrArg some ham.symm, ham.trans_le hpos⟩
  | some n =>
    obtain ⟨m₁, m₂, rfl, hn⟩ := exists_of_rfind hfind
    refine ⟨a ++ m₁, '\n' :: m₂ ++ b, by rw [hcontent]; simp, ?_, ?_⟩
    · rw [Option.elim_some, byteLen_append, ha, hn]
    · rw [byteLen_append, byteLen_append, byteLen_cons] at ham
      rw [byteLen_append]
      omega

theorem findSafeBreakAfter_spec (content : List Char) (pos : ℕ) :
    ∃ a b, content = a ++ b ∧ findSafeBreakAfter content pos = some (byteLen a) ∧
      min pos (byteLen content) ≤ byteLen a := by
  unfold findSafeBreakAfter
  set safe := ceilBoundary content (min pos (byteLen content)) with hsafe
  have hpos : min pos (byteLen content) ≤ safe := le_ceilBoundary (min_le_right _ _)
  have hlen : safe ≤ byteLen content := by
    obtain ⟨a, b, hab, hbyte⟩ := isBoundary_iff.mp (isBoundary_ceilBoundary content
      (min pos (byteLen content)))
    rw [← hsafe] at hbyte
    rw [← hbyte, hab, byteLen_append]
    exact Nat.le_add_right _ _
  have hse : safe ≤ ceilBoundary content (min (safe + 200) (byteLen content)) :=
    (le_min (Nat.le_add_right _ _) hlen).trans (le_ceilBoundary (min_le_right _ _))
  obtain ⟨a, m, b, hcontent, ha, -, hslice⟩ :=
    exists_slice (isBoundary_ceilBoundary _ _) (isBoundary_ceilBoundary _ _) hse
  simp only [← hsafe] at hslice ha ⊢
  rw [hslice, Option.map_some]
  cases hfind : find '\n' m with
  | none =>
    refine ⟨a, m ++ b, by rw [hcontent, List.append_assoc], ?_, hpos.trans_eq ha.symm⟩
    exact congrArg some ha.symm
  | some n =>
    obtain ⟨m₁, m₂, rfl, hn⟩ := exists_of_find hfind
    have hbyte : byteLen (a ++ m₁ ++ ['\n']) = safe + n + 1 := by
      rw [byteLen_append, byteLen_append, ha, hn]
      rfl
    refine ⟨a ++ m₁ ++ ['\n'], m₂ ++ b, by rw [hcontent]; simp, ?_, ?_⟩
    · rw [Option.elim_some, hbyte]
    · rw [hbyte]
      omega

/-- The beginning of a text up to the break within the bytes that some characters may have. -/
def headPart (content : List Char) (chars : ℕ) : List Char :=
  ((findSafeBreakBefore content (averageBytes content chars)).bind (cut · content)).elim [] Prod.fst

/-- The end of a text from the break within the bytes that some characters may have. -/
def tailPart (content : List Char) (chars : ℕ) : List Char :=
  ((findSafeBreakAfter content (byteLen content - averageBytes content chars)).bind
    (cut · content)).elim [] Prod.snd

theorem headPart_spec (content : List Char) (chars : ℕ) :
    ∃ b, content = headPart content chars ++ b ∧
      findSafeBreakBefore content (averageBytes content chars) =
        some (byteLen (headPart content chars)) ∧
      byteLen (headPart content chars) ≤ averageBytes content chars := by
  obtain ⟨a, b, hab, hbreak, hle⟩ := findSafeBreakBefore_spec content (averageBytes content chars)
  have hcut : cut (byteLen a) content = some (a, b) := cut_eq_some_iff.mpr ⟨hab, rfl⟩
  have hhead : headPart content chars = a := by
    rw [headPart, hbreak, Option.bind_some, hcut]
    rfl
  rw [hhead]
  exact ⟨b, hab, hbreak, hle⟩

theorem tailPart_spec (content : List Char) (chars : ℕ) :
    ∃ a, content = a ++ tailPart content chars ∧
      findSafeBreakAfter content (byteLen content - averageBytes content chars) =
        some (byteLen a) ∧
      byteLen content - averageBytes content chars ≤ byteLen a := by
  obtain ⟨a, b, hab, hbreak, hge⟩ :=
    findSafeBreakAfter_spec content (byteLen content - averageBytes content chars)
  have hcut : cut (byteLen a) content = some (a, b) := cut_eq_some_iff.mpr ⟨hab, rfl⟩
  have htail : tailPart content chars = b := by
    rw [tailPart, hbreak, Option.bind_some, hcut]
    rfl
  rw [min_eq_left (Nat.sub_le _ _)] at hge
  rw [htail]
  exact ⟨a, hab, hbreak, hge⟩

theorem headChars_le (usable : ℕ) : headChars usable ≤ usable := by
  unfold headChars
  omega

theorem averageBytes_add_lt {m n : ℕ} (h : m + n < content.length) :
    averageBytes content m + averageBytes content n < byteLen content := by
  have hbyte : 0 < byteLen content := (Nat.zero_lt_of_lt h).trans_le (length_le_byteLen content)
  unfold averageBytes
  calc m * byteLen content / content.length + n * byteLen content / content.length
      ≤ (m * byteLen content + n * byteLen content) / content.length := Nat.div_add_div_le_add_div
    _ = (m + n) * byteLen content / content.length := by rw [Nat.add_mul]
    _ < byteLen content := by
      rw [Nat.div_lt_iff_lt_mul (Nat.zero_lt_of_lt h), Nat.mul_comm]
      exact Nat.mul_lt_mul_of_pos_left h hbyte

theorem truncateEnds_of_le {cap : ℕ} (hcap : content.length ≤ cap) (reserve : ℕ)
    (headLine : ℕ → List Char) (endsLine : ℕ → ℕ → List Char) :
    truncateEnds content cap reserve headLine endsLine = some content := if_pos hcap

/-- **What is made of a text above the cap**: its two ends, never its beginning alone. -/
theorem truncateEnds_eq {cap : ℕ} (hcap : cap < content.length) (reserve : ℕ)
    (headLine : ℕ → List Char) (endsLine : ℕ → ℕ → List Char) :
    let usable := cap - (truncationMarker.length + reserve)
    let head := headPart content (headChars usable)
    let tail := tailPart content (usable - headChars usable)
    truncateEnds content cap reserve headLine endsLine =
      some (head ++ truncationMarker ++ tail ++ endsLine head.length tail.length) := by
  intro usable head tail
  have hroom : headChars usable + (usable - headChars usable) < content.length := by
    have := headChars_le usable
    omega
  have hbytes := averageBytes_add_lt hroom
  obtain ⟨b, hhead, hbefore, hle⟩ := headPart_spec content (headChars usable)
  obtain ⟨a, htail, hafter, hge⟩ := tailPart_spec content (usable - headChars usable)
  have hcut : cut (byteLen head) content = some (head, b) := cut_eq_some_iff.mpr ⟨hhead, rfl⟩
  have hcut' : cut (byteLen a) content = some (a, tail) := cut_eq_some_iff.mpr ⟨htail, rfl⟩
  have hgap : ¬ byteLen a ≤ byteLen head := by
    have hle' : byteLen head ≤ _ := hle
    omega
  unfold truncateEnds
  rw [if_neg (Nat.not_le_of_lt hcap)]
  simp only
  rw [hbefore, Option.bind_some, hafter, Option.bind_some, if_neg hgap, hcut, Option.bind_some,
    hcut', Option.map_some]

theorem overflowTruncate_eq (hcap : toolTruncationLimit < content.length) :
    let head := Text.truncateChars (averageBytes content (toolTruncationLimit - 80)) content
    overflowTruncate content = some (head ++ overflowLine content.length head.length) := by
  intro head
  have hroom := @averageBytes_add_lt content (toolTruncationLimit - 80) 0
    ((Nat.sub_le _ _).trans_lt hcap)
  unfold overflowTruncate
  rw [if_neg (Nat.not_le_of_lt hcap)]
  simp only
  rw [min_eq_left (by omega)]
  obtain ⟨halves, hcut, hhead⟩ := Option.map_eq_some_iff.mp
    (cut_floorBoundary content (averageBytes content (toolTruncationLimit - 80)))
  rw [hcut, Option.map_some, hhead]

end Kept

/-- The digits of a number. -/
def digits (n : ℕ) : ℕ := (decimal n).length

theorem length_truncationMarker : truncationMarker.length = 28 := by decide

theorem length_truncatedLine (charCount : ℕ) (shown : List Char) :
    (truncatedLine budget charCount shown).length =
      82 + digits charCount + shown.length + digits (budget.contextWindowTokens / 1000) := by
  unfold truncatedLine digits
  simp only [List.length_append]
  have h30 : (decimal 30).length = 2 := by decide
  have h₁ : "\n\n[TRUNCATED: result was ".toList.length = 25 := by decide
  have h₂ : " chars, showing first ".toList.length = 22 := by decide
  have h₃ : " (budget: ".toList.length = 10 := by decide
  have h₄ : "% of ".toList.length = 5 := by decide
  have h₅ : "K context window)]".toList.length = 18 := by decide
  omega

theorem length_compactedLine (charCount kept : ℕ) (how : String) :
    (compactedLine charCount kept how).length =
      42 + digits charCount + digits kept + how.toList.length := by
  unfold compactedLine digits
  simp only [List.length_append]
  have h₁ : "\n\n[COMPACTED: ".toList.length = 14 := by decide
  have h₂ : " -> ".toList.length = 4 := by decide
  have h₃ : " chars by context guard".toList.length = 23 := by decide
  have h₄ : "]".toList.length = 1 := by decide
  omega

theorem length_overflowLine (charCount kept : ℕ) :
    (overflowLine charCount kept).length = 48 + digits charCount + digits kept := by
  unfold overflowLine digits
  simp only [List.length_append]
  have h₁ : "\n\n[OVERFLOW RECOVERY: truncated from ".toList.length = 37 := by decide
  have h₂ : " to ".toList.length = 4 := by decide
  have h₃ : " chars]".toList.length = 7 := by decide
  omega

/-! ## Caps that are met -/

/-- What a truncation is for: no slice panics, a text within the cap stays, and what is made of a
longer one is within the cap and not longer than the text. -/
def Capped (truncated : Option (List Char)) (content : List Char) (cap : ℕ) : Prop :=
  ∃ out, truncated = some out ∧ (content.length ≤ cap → out = content) ∧
    (cap < content.length → out.length ≤ cap ∧ out.length ≤ content.length)

/-- What a cap leaves for the ends, by the marker and the reserve for the line. -/
def usableChars (cap reserve : ℕ) : ℕ := cap - (28 + reserve)

/-- The characters in the first end. -/
def headKept (content : List Char) (usable : ℕ) : ℕ := (headPart content (headChars usable)).length

/-- The characters in the last end. -/
def tailKept (content : List Char) (usable : ℕ) : ℕ :=
  (tailPart content (usable - headChars usable)).length

/-- The ends, the marker and the line of `truncate_tool_result_dynamic` fit in the cap. -/
def DynamicFits (content : List Char) : Prop :=
  let head := headKept content (usableChars budget.perResultCap 100)
  let tail := tailKept content (usableChars budget.perResultCap 100)
  head + tail + 118 + digits content.length + digits head + digits tail +
    digits (budget.contextWindowTokens / 1000) ≤ budget.perResultCap

/-- The ends, the marker and the line of `truncate_to` fit in the cap. -/
def CompactFits (content : List Char) (cap : ℕ) : Prop :=
  let kept := headKept content (usableChars cap 80) + tailKept content (usableChars cap 80)
  kept + 82 + digits content.length + digits kept ≤ cap

/-- The beginning and the line of overflow recovery fit in the limit. -/
def OverflowFits (content : List Char) : Prop :=
  let kept := (Text.truncateChars (averageBytes content 1920) content).length
  kept + 48 + digits content.length + digits kept ≤ toolTruncationLimit

section Capped

variable {content : List Char} {cap : ℕ}

theorem capped_iff {truncated : Option (List Char)} {out : List Char}
    (hshort : content.length ≤ cap → truncated = some content)
    (hlong : cap < content.length → truncated = some out) :
    Capped truncated content cap ↔ content.length ≤ cap ∨ out.length ≤ cap := by
  by_cases hcap : content.length ≤ cap
  · refine iff_of_true ⟨content, hshort hcap, fun _ => rfl, fun h => ?_⟩ (.inl hcap)
    exact absurd hcap (Nat.not_le_of_lt h)
  · have hlt := Nat.lt_of_not_le hcap
    rw [or_iff_right hcap]
    constructor
    · rintro ⟨out', heq, -, hbound⟩
      obtain rfl := Option.some.inj ((hlong hlt).symm.trans heq)
      exact (hbound hlt).1
    · intro hle
      exact ⟨out, hlong hlt, fun h => absurd h hcap, fun _ => ⟨hle, hle.trans hlt.le⟩⟩

theorem capped_truncateToolResultDynamic_iff (content : List Char) :
    Capped (truncateToolResultDynamic budget content) content budget.perResultCap ↔
      content.length ≤ budget.perResultCap ∨ DynamicFits budget content := by
  refine (capped_iff (fun h => truncateEnds_of_le h _ _ _)
    fun h => truncateEnds_eq h _ _ _).trans (or_congr_right ?_)
  unfold DynamicFits headKept tailKept usableChars
  simp only [List.length_append, length_truncatedLine, length_truncationMarker]
  have hlast : " + last ".toList.length = 8 := by decide
  unfold digits
  omega

theorem capped_truncateTo_iff (content : List Char) (cap : ℕ) :
    Capped (truncateTo content cap) content cap ↔
      content.length ≤ cap ∨ CompactFits content cap := by
  refine (capped_iff (fun h => truncateEnds_of_le h _ _ _)
    fun h => truncateEnds_eq h _ _ _).trans (or_congr_right ?_)
  unfold CompactFits headKept tailKept usableChars
  simp only [List.length_append, length_compactedLine, length_truncationMarker]
  have hhow : " (head+tail)".toList.length = 12 := by decide
  omega

theorem capped_overflowTruncate_iff (content : List Char) :
    Capped (overflowTruncate content) content toolTruncationLimit ↔
      content.length ≤ toolTruncationLimit ∨ OverflowFits content := by
  refine (capped_iff (fun h => if_pos h) fun h => overflowTruncate_eq h).trans (or_congr_right ?_)
  have hkeep : toolTruncationLimit - 80 = 1920 := rfl
  unfold OverflowFits
  rw [hkeep, List.length_append, length_overflowLine, ← Nat.add_assoc, ← Nat.add_assoc]

end Capped

/-! ## Texts that leave room -/

/-- The first `k + 1` characters of a text have more bytes than `k` have on the average. -/
def WideStart (content : List Char) (k : ℕ) : Prop :=
  k * byteLen content < byteLen (content.take (k + 1)) * content.length

/-- The last `k + 1` characters of a text have more bytes than `k` have on the average. -/
def WideEnd (content : List Char) (k : ℕ) : Prop :=
  k * byteLen content < byteLen (content.drop (content.length - (k + 1))) * content.length

/-- The ends of the text are as wide as the rest, and the cap of `truncate_tool_result_dynamic` has
room for its line. -/
def DynamicRoom (content : List Char) : Prop :=
  let usable := usableChars budget.perResultCap 100
  let head := headChars usable
  WideStart content head ∧ WideEnd content (usable - head) ∧
    usable + 118 + digits content.length + digits head + digits (usable - head) +
      digits (budget.contextWindowTokens / 1000) ≤ budget.perResultCap

/-- The ends of the text are as wide as the rest, and the cap has room for the line of
`truncate_to`. -/
def CompactRoom (content : List Char) (cap : ℕ) : Prop :=
  let usable := usableChars cap 80
  let head := headChars usable
  WideStart content head ∧ WideEnd content (usable - head) ∧
    usable + 82 + digits content.length + digits usable ≤ cap

/-- The beginning of the text is as wide as the rest, and the limit has room for the line of
overflow recovery. -/
def OverflowRoom (content : List Char) : Prop :=
  WideStart content 1920 ∧ 1968 + digits content.length + digits 1920 ≤ toolTruncationLimit

section Room

variable {content : List Char} {cap : ℕ}

theorem digits_mono {m n : ℕ} (h : m ≤ n) : digits m ≤ digits n :=
  (Nat.length_toDigits_le_iff (by decide) Nat.length_toDigits_pos).mpr
    (h.trans_lt ((Nat.length_toDigits_le_iff (by decide) Nat.length_toDigits_pos).mp le_rfl))

variable {part : List Char}

theorem byteLen_infix_le (h : part <:+: content) : byteLen part ≤ byteLen content := by
  obtain ⟨a, b, rfl⟩ := h
  rw [byteLen_append, byteLen_append]
  omega

theorem mul_length_le_of_le_averageBytes {k : ℕ}
    (h : byteLen part ≤ averageBytes content k) (hpos : 0 < content.length) :
    byteLen part * content.length ≤ k * byteLen content :=
  (Nat.le_div_iff_mul_le hpos).mp h

theorem length_le_of_wideStart {k : ℕ} (h : WideStart content k)
    (hpart : part <+: content) (hbytes : byteLen part ≤ averageBytes content k) :
    part.length ≤ k := by
  by_contra hlong
  have htake : content.take (k + 1) <+: part :=
    List.prefix_of_prefix_length_le (List.take_prefix _ _) hpart
      ((List.length_take_le _ _).trans (Nat.lt_of_not_le hlong))
  have hle := Nat.mul_le_mul_right content.length (byteLen_infix_le htake.isInfix)
  have hpos : 0 < content.length := (Nat.zero_lt_of_lt (Nat.lt_of_not_le hlong)).trans_le
    hpart.length_le
  have hfew := mul_length_le_of_le_averageBytes hbytes hpos
  exact absurd (h.trans_le (hle.trans hfew)) (Nat.lt_irrefl _)

theorem length_le_of_wideEnd {k : ℕ} (h : WideEnd content k)
    (hpart : part <:+ content) (hbytes : byteLen part ≤ averageBytes content k) :
    part.length ≤ k := by
  by_contra hlong
  have hdrop : content.drop (content.length - (k + 1)) <:+ part := by
    refine List.suffix_of_suffix_length_le (List.drop_suffix _ _) hpart ?_
    rw [List.length_drop]
    omega
  have hle := Nat.mul_le_mul_right content.length (byteLen_infix_le hdrop.isInfix)
  have hpos : 0 < content.length := (Nat.zero_lt_of_lt (Nat.lt_of_not_le hlong)).trans_le
    hpart.length_le
  have hfew := mul_length_le_of_le_averageBytes hbytes hpos
  exact absurd (h.trans_le (hle.trans hfew)) (Nat.lt_irrefl _)

theorem headKept_le {usable : ℕ} (h : WideStart content (headChars usable)) :
    headKept content usable ≤ headChars usable := by
  obtain ⟨b, hb, -, hle⟩ := headPart_spec content (headChars usable)
  exact length_le_of_wideStart h ⟨b, hb.symm⟩ hle

theorem tailKept_le {usable : ℕ} (h : WideEnd content (usable - headChars usable)) :
    tailKept content usable ≤ usable - headChars usable := by
  obtain ⟨a, ha, -, hge⟩ := tailPart_spec content (usable - headChars usable)
  refine length_le_of_wideEnd h ⟨a, ha.symm⟩ ?_
  have hbytes := congrArg byteLen ha
  rw [byteLen_append] at hbytes
  omega

theorem DynamicRoom.fits (h : DynamicRoom budget content) : DynamicFits budget content := by
  obtain ⟨hstart, hend, hroom⟩ := h
  have hhead := headKept_le hstart
  have htail := tailKept_le hend
  have hle := headChars_le (usableChars budget.perResultCap 100)
  have h₁ := digits_mono hhead
  have h₂ := digits_mono htail
  unfold DynamicFits
  dsimp only
  omega

theorem CompactRoom.fits (h : CompactRoom content cap) : CompactFits content cap := by
  obtain ⟨hstart, hend, hroom⟩ := h
  have hhead := headKept_le hstart
  have htail := tailKept_le hend
  have hle := headChars_le (usableChars cap 80)
  have hkept : headKept content (usableChars cap 80) + tailKept content (usableChars cap 80) ≤
      usableChars cap 80 := by omega
  have hdigits := digits_mono hkept
  unfold CompactFits
  dsimp only
  omega

theorem prefix_truncateChars (n : ℕ) (s : List Char) : Text.truncateChars n s <+: s := by
  induction s generalizing n with
  | nil => exact List.prefix_refl _
  | cons c s ih =>
    unfold Text.truncateChars
    split_ifs
    · exact (List.prefix_cons_inj c).mpr (ih _)
    · exact List.nil_prefix

theorem byteLen_truncateChars_le (n : ℕ) (s : List Char) : byteLen (Text.truncateChars n s) ≤ n := by
  induction s generalizing n with
  | nil => exact Nat.zero_le n
  | cons c s ih =>
    unfold Text.truncateChars
    split_ifs with hfits
    · have := ih (n - c.utf8Size)
      rw [byteLen_cons]
      omega
    · exact Nat.zero_le n

theorem OverflowRoom.fits (h : OverflowRoom content) : OverflowFits content := by
  have hkept : (Text.truncateChars (averageBytes content 1920) content).length ≤ 1920 :=
    length_le_of_wideStart h.1 (prefix_truncateChars _ _) (byteLen_truncateChars_le _ _)
  have hdigits := digits_mono hkept
  have hroom := h.2
  unfold OverflowFits
  dsimp only
  omega

end Room

section Uniform

variable {content : List Char} {width k : ℕ}

theorem byteLen_of_uniform (h : ∀ c ∈ content, c.utf8Size = width) :
    byteLen content = content.length * width := by
  induction content with
  | nil => exact (Nat.zero_mul width).symm
  | cons c s ih =>
    rw [List.forall_mem_cons] at h
    rw [byteLen_cons, ih h.2, h.1, List.length_cons, Nat.succ_mul, Nat.add_comm]

theorem lt_of_uniform (h : ∀ c ∈ content, c.utf8Size = width) (hk : k < content.length)
    (hpart : part ⊆ content) (hlen : part.length = k + 1) :
    k * byteLen content < byteLen part * content.length := by
  have hwidth : 0 < width := by
    obtain ⟨c, hc⟩ := List.exists_mem_of_length_pos (Nat.zero_lt_of_lt hk)
    exact h c hc ▸ c.utf8Size_pos
  rw [byteLen_of_uniform h, byteLen_of_uniform fun c hc => h c (hpart hc), hlen]
  have hpos : 0 < content.length * width := Nat.mul_pos (Nat.zero_lt_of_lt hk) hwidth
  calc k * (content.length * width) < (k + 1) * (content.length * width) :=
        Nat.mul_lt_mul_of_pos_right k.lt_succ_self hpos
    _ = (k + 1) * width * content.length := by
        rw [Nat.mul_assoc, Nat.mul_comm width]

theorem wideStart_of_uniform (h : ∀ c ∈ content, c.utf8Size = width) (hk : k < content.length) :
    WideStart content k :=
  lt_of_uniform h hk (List.take_subset _ _) (List.length_take_of_le hk)

theorem wideEnd_of_uniform (h : ∀ c ∈ content, c.utf8Size = width) (hk : k < content.length) :
    WideEnd content k := by
  refine lt_of_uniform h hk (List.drop_subset _ _) ?_
  rw [List.length_drop]
  omega

end Uniform

/-- **A truncation does what it is for where the ends of the text are as wide as the rest and the cap
has room for the line.** -/
theorem truncations_capped (budget : ContextBudget) (content : List Char) (cap : ℕ) :
    (content.length ≤ budget.perResultCap ∨ DynamicRoom budget content →
      Capped (truncateToolResultDynamic budget content) content budget.perResultCap) ∧
    (content.length ≤ cap ∨ CompactRoom content cap →
      Capped (truncateTo content cap) content cap) ∧
    (content.length ≤ toolTruncationLimit ∨ OverflowRoom content →
      Capped (overflowTruncate content) content toolTruncationLimit) :=
  ⟨fun h => (capped_truncateToolResultDynamic_iff budget content).mpr (h.imp_right (·.fits)),
    fun h => (capped_truncateTo_iff content cap).mpr (h.imp_right (·.fits)),
    fun h => (capped_overflowTruncate_iff content).mpr (h.imp_right (·.fits))⟩

theorem truncations_capped_letters :
    Capped (truncateToolResultDynamic (.ofTokens 500) (List.replicate 2500 'a'))
        (List.replicate 2500 'a') (ContextBudget.ofTokens 500).perResultCap ∧
      Capped (truncateTo (List.replicate 2500 'a') 200) (List.replicate 2500 'a') 200 ∧
      Capped (overflowTruncate (List.replicate 2500 'a')) (List.replicate 2500 'a')
        toolTruncationLimit := by
  have hlen : (List.replicate 2500 'a').length = 2500 := List.length_replicate
  have hletters : ∀ c ∈ List.replicate 2500 'a', c.utf8Size = 1 := fun c hc =>
    List.eq_of_mem_replicate hc ▸ rfl
  have hstart {k : ℕ} (hk : k < 2500) : WideStart (List.replicate 2500 'a') k :=
    wideStart_of_uniform hletters (hlen.symm ▸ hk)
  have hend {k : ℕ} (hk : k < 2500) : WideEnd (List.replicate 2500 'a') k :=
    wideEnd_of_uniform hletters (hlen.symm ▸ hk)
  have hcap : (ContextBudget.ofTokens 500).perResultCap = 300 := by decide +kernel
  obtain ⟨hdynamic, hcompact, hoverflow⟩ :=
    truncations_capped (.ofTokens 500) (List.replicate 2500 'a') 200
  refine ⟨hdynamic (.inr ?_), hcompact (.inr ?_), hoverflow (.inr ?_)⟩
  · unfold DynamicRoom
    rw [hcap, hlen]
    exact ⟨hstart (by decide), hend (by decide), by decide⟩
  · unfold CompactRoom
    rw [hlen]
    exact ⟨hstart (by decide), hend (by decide), by decide⟩
  · unfold OverflowRoom
    rw [hlen]
    exact ⟨hstart (by decide), by decide⟩

/-- A thousand letters become six hundred and one, where the window allows six hundred. -/
theorem letters_not_capped :
    ¬ ((∀ budget content, Capped (truncateToolResultDynamic budget content) content
          budget.perResultCap) ∧
      (∀ content cap, Capped (truncateTo content cap) content cap) ∧
      ∀ content, Capped (overflowTruncate content) content toolTruncationLimit) := by
  rintro ⟨hdynamic, -, -⟩
  obtain ⟨out, hout, -, hbound⟩ := hdynamic (.ofTokens 1000) (List.replicate 1000 'a')
  have hlength : (truncateToolResultDynamic (.ofTokens 1000) (List.replicate 1000 'a')).map
      List.length = some 601 := by decide +kernel
  have hcap : (ContextBudget.ofTokens 1000).perResultCap = 600 := by decide +kernel
  rw [hout, Option.map_some, Option.some_inj] at hlength
  have := (hbound (by rw [hcap, List.length_replicate]; omega)).1
  omega

end LibreFang.Context
