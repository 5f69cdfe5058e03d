import Mathlib.Data.List.Induction
import Mathlib.Data.List.Infix

/-!
# Lines of a text

The lines of a text, with what ends each: a newline, a `\r` and a newline, or the end of the text.

* `splitInclusive`, `lines`: functions of `str`; `unlines`: lines joined by newlines.
* `chomp`, `ending`: a line without its end, and its end.
* **`splitInclusive_unlines`**: the lines of lines that are joined.
-/

namespace TextLines

/-- `str::split_inclusive` at newlines: the lines, each with what ends it. -/
def splitInclusive : List Char → List (List Char)
  | [] => []
  | c :: s =>
    if c = '\n' then [c] :: splitInclusive s
    else
      match splitInclusive s with
      | [] => [[c]]
      | piece :: pieces => (c :: piece) :: pieces

/-- A line without what ends it. -/
def chomp (piece : List Char) : List Char :=
  if piece.getLast? = some '\n' then
    if piece.dropLast.getLast? = some '\r' then piece.dropLast.dropLast else piece.dropLast
  else piece

/-- What ends a line. -/
def ending (piece : List Char) : List Char := piece.drop (chomp piece).length

/-- `str::lines`. -/
def lines (s : List Char) : List (List Char) := (splitInclusive s).map chomp

/-- Lines joined by newlines. -/
def unlines (ls : List (List Char)) : List Char := List.intercalate ['\n'] ls

/-! ## The lines of a text -/

variable {text : List Char}

theorem splitInclusive_append (h : '\n' ∉ text) (s : List Char) :
    splitInclusive (text ++ '\n' :: s) = (text ++ ['\n']) :: splitInclusive s := by
  induction text with
  | nil => rw [List.nil_append, List.nil_append, splitInclusive, if_pos rfl]
  | cons c text ih =>
    rw [List.mem_cons, not_or] at h
    rw [List.cons_append, splitInclusive, if_neg (Ne.symm h.1), ih h.2]
    rfl

theorem splitInclusive_of_not_mem (h : '\n' ∉ text) (hne : text ≠ []) :
    splitInclusive text = [text] := by
  induction text with
  | nil => exact absurd rfl hne
  | cons c text ih =>
    rw [List.mem_cons, not_or] at h
    rw [splitInclusive, if_neg (Ne.symm h.1)]
    cases text with
    | nil => rfl
    | cons d text => rw [ih h.2 (List.cons_ne_nil d text)]

theorem lines_induction {motive : List Char → Prop} (nil : motive [])
    (last : ∀ text, '\n' ∉ text → text ≠ [] → motive text)
    (line : ∀ text s, '\n' ∉ text → motive s → motive (text ++ '\n' :: s)) (s : List Char) :
    motive s := by
  induction hlen : s.length using Nat.strongRecOn generalizing s with
  | _ n ih =>
    by_cases hmem : '\n' ∈ s
    · obtain ⟨text, rest, rfl, htext⟩ := List.eq_append_cons_of_mem hmem
      refine line text rest htext (ih rest.length ?_ rest rfl)
      rw [← hlen, List.length_append, List.length_cons]
      omega
    · by_cases hne : s = []
      · rw [hne]
        exact nil
      · exact last s hmem hne

theorem flatten_splitInclusive (s : List Char) : (splitInclusive s).flatten = s := by
  induction s using lines_induction with
  | nil => rfl
  | last text h hne => rw [splitInclusive_of_not_mem h hne, List.flatten_singleton]
  | line text s h ih =>
    rw [splitInclusive_append h, List.flatten_cons, ih, List.append_assoc]
    rfl

/-- A line of a text: characters that are no newline, and a newline except at the end. -/
def IsPiece (piece : List Char) : Prop :=
  ∃ text, '\n' ∉ text ∧ (piece = text ++ ['\n'] ∨ piece = text ∧ text ≠ [])

theorem isPiece_of_mem {s piece : List Char} (h : piece ∈ splitInclusive s) : IsPiece piece := by
  induction s using lines_induction with
  | nil => exact absurd h List.not_mem_nil
  | last text hmem hne =>
    rw [splitInclusive_of_not_mem hmem hne, List.mem_singleton] at h
    exact ⟨text, hmem, .inr ⟨h, hne⟩⟩
  | line text s hmem ih =>
    rw [splitInclusive_append hmem, List.mem_cons] at h
    rcases h with rfl | h
    · exact ⟨text, hmem, .inl rfl⟩
    · exact ih h

theorem IsPiece.ne_nil {piece : List Char} (h : IsPiece piece) : piece ≠ [] := by
  obtain ⟨text, -, rfl | ⟨rfl, hne⟩⟩ := h
  · exact List.append_ne_nil_of_right_ne_nil _ (List.cons_ne_nil _ _)
  · exact hne

theorem length_lines (s : List Char) : (lines s).length = (splitInclusive s).length :=
  List.length_map chomp

/-! ## What ends a line -/

theorem chomp_of_not_mem (h : '\n' ∉ text) : chomp text = text :=
  if_neg fun hlast => h (List.mem_of_getLast? hlast)

theorem chomp_newline (text : List Char) :
    chomp (text ++ ['\n']) = if text.getLast? = some '\r' then text.dropLast else text := by
  unfold chomp
  rw [List.getLast?_concat, if_pos rfl, List.dropLast_concat]

theorem chomp_lf (h : text.getLast? ≠ some '\r') : chomp (text ++ ['\n']) = text := by
  rw [chomp_newline, if_neg h]

theorem chomp_crlf (text : List Char) : chomp (text ++ ['\r'] ++ ['\n']) = text := by
  rw [chomp_newline, List.getLast?_concat, if_pos rfl, List.dropLast_concat]

/-- **A line is its text and what ends it**: nothing, a newline, or a `\r` and a newline. -/
theorem chomp_append_ending (piece : List Char) :
    chomp piece ++ ending piece = piece ∧
      (ending piece = [] ∨ ending piece = ['\n'] ∨ ending piece = ['\r', '\n']) := by
  have hof {text tail : List Char} (hchomp : chomp (text ++ tail) = text)
      (htail : tail = [] ∨ tail = ['\n'] ∨ tail = ['\r', '\n']) :
      chomp (text ++ tail) ++ ending (text ++ tail) = text ++ tail ∧
        (ending (text ++ tail) = [] ∨ ending (text ++ tail) = ['\n'] ∨
          ending (text ++ tail) = ['\r', '\n']) := by
    have hending : ending (text ++ tail) = tail := by
      unfold ending
      rw [hchomp, List.drop_left]
    rw [hchomp, hending]
    exact ⟨rfl, htail⟩
  by_cases hlast : piece.getLast? = some '\n'
  · obtain ⟨text, rfl⟩ := List.getLast?_eq_some_iff.mp hlast
    by_cases hcr : text.getLast? = some '\r'
    · obtain ⟨front, rfl⟩ := List.getLast?_eq_some_iff.mp hcr
      rw [List.append_assoc]
      exact hof (by rw [← List.append_assoc]; exact chomp_crlf front) (.inr (.inr rfl))
    · exact hof (chomp_lf hcr) (.inr (.inl rfl))
  · have hnone := @hof piece [] (by rw [List.append_nil]; exact if_neg hlast) (.inl rfl)
    rwa [List.append_nil] at hnone

theorem IsPiece.not_mem_chomp {piece : List Char} (h : IsPiece piece) : '\n' ∉ chomp piece := by
  obtain ⟨text, htext, rfl | ⟨rfl, -⟩⟩ := h
  · rw [chomp_newline]
    split_ifs
    · exact fun hmem => htext (List.mem_of_mem_dropLast hmem)
    · exact htext
  · rwa [chomp_of_not_mem htext]

theorem IsPiece.ending_ne_nil {piece : List Char} (h : IsPiece piece) (hmem : '\n' ∈ piece) :
    ending piece ≠ [] := by
  intro hnil
  have happend := (chomp_append_ending piece).1
  rw [hnil, List.append_nil] at happend
  exact h.not_mem_chomp (happend.symm ▸ hmem)

theorem mem_of_mem_dropLast {s piece : List Char} (h : piece ∈ (splitInclusive s).dropLast) :
    '\n' ∈ piece := by
  induction s using lines_induction with
  | nil => exact absurd h List.not_mem_nil
  | last text hmem hne =>
    rw [splitInclusive_of_not_mem hmem hne] at h
    exact absurd h List.not_mem_nil
  | line text s hmem ih =>
    rw [splitInclusive_append hmem] at h
    by_cases hnil : splitInclusive s = []
    · rw [hnil] at h
      exact absurd h List.not_mem_nil
    · rw [List.dropLast_cons_of_ne_nil hnil, List.mem_cons] at h
      rcases h with rfl | h
      · exact List.mem_append_right _ List.mem_cons_self
      · exact ih h

theorem not_mem_of_mem_lines {s l : List Char} (h : l ∈ lines s) : '\n' ∉ l := by
  obtain ⟨piece, hpiece, rfl⟩ := List.mem_map.mp h
  exact (isPiece_of_mem hpiece).not_mem_chomp

variable {ls : List (List Char)}

theorem lines_crlf (h : ∀ l ∈ ls, '\n' ∉ l) : lines (ls.flatMap (· ++ ['\r', '\n'])) = ls := by
  induction ls with
  | nil => rfl
  | cons l ls ih =>
    rw [List.forall_mem_cons] at h
    have hl : '\n' ∉ l ++ ['\r'] := by
      rw [List.mem_append, not_or]
      exact ⟨h.1, by decide⟩
    have hsplit : (l :: ls).flatMap (· ++ ['\r', '\n']) =
        (l ++ ['\r']) ++ '\n' :: ls.flatMap (· ++ ['\r', '\n']) := by
      simp
    have hrest := ih h.2
    unfold lines at hrest ⊢
    rw [hsplit, splitInclusive_append hl, List.map_cons, chomp_crlf, hrest]

/-! ## Lines joined -/

theorem unlines_singleton (l : List Char) : unlines [l] = l := List.intercalate_singleton

theorem unlines_concat (ls : List (List Char)) (last : List Char) :
    unlines (ls ++ [last]) = ls.flatMap (· ++ ['\n']) ++ last := by
  induction ls with
  | nil => exact unlines_singleton last
  | cons l ls ih =>
    unfold unlines at ih ⊢
    obtain ⟨m, ms, hms⟩ := List.exists_cons_of_ne_nil
      (List.append_ne_nil_of_right_ne_nil ls (List.cons_ne_nil last []))
    rw [hms] at ih
    rw [List.cons_append, hms, List.intercalate_cons_cons, ih, List.flatMap_cons]
    simp only [List.append_assoc]

theorem unlines_cons_cons (l m : List Char) (ls : List (List Char)) :
    unlines (l :: m :: ls) = l ++ '\n' :: unlines (m :: ls) := by
  unfold unlines
  rw [List.intercalate_cons_cons, List.append_assoc]
  rfl

theorem unlines_append {a b : List (List Char)} (ha : a ≠ []) (hb : b ≠ []) :
    unlines (a ++ b) = unlines a ++ '\n' :: unlines b := by
  induction a with
  | nil => exact absurd rfl ha
  | cons l a ih =>
    cases a with
    | nil =>
      obtain ⟨m, ms, rfl⟩ := List.exists_cons_of_ne_nil hb
      rw [unlines_singleton]
      exact unlines_cons_cons l m ms
    | cons m a =>
      rw [List.cons_append, List.cons_append, unlines_cons_cons, unlines_cons_cons,
        ← List.cons_append, ih (List.cons_ne_nil _ _), List.append_assoc]
      rfl

theorem unlines_newline (h : ls ≠ []) : unlines ls ++ ['\n'] = ls.flatMap (· ++ ['\n']) := by
  induction ls using List.reverseRecOn with
  | nil => exact absurd rfl h
  | append_singleton ls last _ =>
    rw [unlines_concat, List.flatMap_append, List.flatMap_singleton, List.append_assoc]

theorem splitInclusive_flatMap (h : ∀ l ∈ ls, '\n' ∉ l)
    (tail : List Char) : splitInclusive (ls.flatMap (· ++ ['\n']) ++ tail) =
      ls.map (· ++ ['\n']) ++ splitInclusive tail := by
  induction ls with
  | nil => rfl
  | cons l ls ih =>
    rw [List.forall_mem_cons] at h
    rw [List.flatMap_cons, List.append_assoc, List.append_assoc, List.singleton_append,
      splitInclusive_append h.1, ih h.2]
    rfl

/-- **The lines of lines that are joined**: all end in a newline but the last, which is none if it
is empty. -/
theorem splitInclusive_unlines {last : List Char} (h : ∀ l ∈ ls, '\n' ∉ l) (hlast : '\n' ∉ last) :
    splitInclusive (unlines (ls ++ [last])) =
      ls.map (· ++ ['\n']) ++ if last = [] then [] else [last] := by
  rw [unlines_concat, splitInclusive_flatMap h]
  by_cases hempty : last = []
  · rw [if_pos hempty, hempty]
    rfl
  · rw [if_neg hempty, splitInclusive_of_not_mem hlast hempty]

end TextLines
