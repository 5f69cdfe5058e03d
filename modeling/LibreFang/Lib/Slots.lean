import LibreFang.Lib.Text
import Mathlib.Logic.Function.Basic

/-!
# Texts with slots

* `Piece`, `parse`: a text as characters and slots; each slot has a mark that stands for it.
* `render`: the slots that have a value show it, the others their mark; `render_parse`.
* `occurrences`: where the scan of `replaceChars` finds a pattern; `slotsAt`: where the slots of a
  name are shown by their mark.
* **`replaceChars_render`**: if a mark is found just where its slots are, replacing it fills them.
-/

namespace Slots

open Text

variable {ι : Type*} (mark : ι → List Char)

/-! ## Pieces -/

/-- A character, or a slot. -/
inductive Piece (ι : Type*)
  | text (c : Char)
  | slot (name : ι)
  deriving DecidableEq, Repr

/-- The pieces of a text: from the left, the first of the names whose mark is there. -/
def parse (names : List ι) : ℕ → List Char → List (Piece ι)
  | _, [] => []
  | skip + 1, _ :: s => parse names skip s
  | 0, c :: s =>
    match names.find? fun name => (mark name).isPrefixOf (c :: s) with
    | some name => .slot name :: parse names ((mark name).length - 1) s
    | none => .text c :: parse names 0 s

/-- The text that is shown; slots without a value show their mark. -/
def render (value : ι → Option (List Char)) : List (Piece ι) → List Char
  | [] => []
  | .text c :: pieces => c :: render value pieces
  | .slot name :: pieces => (value name).getD (mark name) ++ render value pieces

theorem parse_skip (names : List ι) (s t : List Char) :
    parse mark names s.length (s ++ t) = parse mark names 0 t := by
  induction s with
  | nil => rfl
  | cons c s ih => exact ih

theorem render_parse (hmark : ∀ name, mark name ≠ []) (names : List ι) (s : List Char) :
    render mark (fun _ => none) (parse mark names 0 s) = s := by
  induction hlen : s.length using Nat.strong_induction_on generalizing s with
  | h n ih =>
    cases s with
    | nil => rfl
    | cons c s =>
      unfold parse
      split
      · rename_i name hfind
        have hprefix := @List.find?_some _ (fun name => (mark name).isPrefixOf (c :: s)) _ _ hfind
        obtain ⟨t, ht⟩ := List.isPrefixOf_iff_prefix.mp hprefix
        cases hm : mark name with
        | nil => exact absurd hm (hmark name)
        | cons d pattern =>
          rw [hm, List.cons_append] at ht
          obtain ⟨rfl, hs⟩ := List.cons.inj ht
          rw [← hs] at hlen ⊢
          have hshort : t.length < n := by
            rw [← hlen, List.length_cons, List.length_append]
            omega
          rw [List.length_cons, Nat.add_sub_cancel, parse_skip, render, ih _ hshort t rfl,
            Option.getD_none, hm]
          rfl
      · rw [render, ih s.length (by rw [← hlen]; exact Nat.lt_succ_self _) s rfl]

/-! ## Filling the slots of a name -/

/-- Where the slots of a name are shown by their mark, if the text begins at the position. -/
def slotsAt [DecidableEq ι] (value : ι → Option (List Char)) (name : ι) : ℕ → List (Piece ι) → List ℕ
  | _, [] => []
  | i, .text _ :: pieces => slotsAt value name (i + 1) pieces
  | i, .slot name' :: pieces =>
    let rest := slotsAt value name (i + ((value name').getD (mark name')).length) pieces
    if name' = name ∧ value name = none then i :: rest else rest

/-- Where the scan of `replaceChars` finds the pattern, if the text begins at the position. -/
def occurrences (pattern : List Char) : ℕ → ℕ → List Char → List ℕ
  | _, _, [] => []
  | skip + 1, i, _ :: s => occurrences pattern skip (i + 1) s
  | 0, i, c :: s =>
    if pattern.isPrefixOf (c :: s) then i :: occurrences pattern (pattern.length - 1) (i + 1) s
    else occurrences pattern 0 (i + 1) s

variable [DecidableEq ι] {mark} {value : ι → Option (List Char)} {name : ι} {pattern new : List Char}

theorem occurrences_skip (i : ℕ) (s t : List Char) :
    occurrences pattern s.length i (s ++ t) = occurrences pattern 0 (i + s.length) t := by
  induction s generalizing i with
  | nil => rfl
  | cons c s ih =>
    rw [List.length_cons, List.cons_append, occurrences, ih, Nat.add_right_comm, Nat.add_assoc]

theorem replaceChars_skip (s t : List Char) :
    replaceChars pattern new s.length (s ++ t) = replaceChars pattern new 0 t := by
  induction s with
  | nil => rfl
  | cons c s ih => exact ih

theorem le_of_mem_slotsAt {i j : ℕ} {pieces : List (Piece ι)}
    (h : j ∈ slotsAt mark value name i pieces) : i ≤ j := by
  induction pieces generalizing i with
  | nil => cases h
  | cons piece pieces ih =>
    cases piece with
    | text c => exact Nat.le_of_succ_le (ih h)
    | slot name' =>
      unfold slotsAt at h
      dsimp only at h
      split_ifs at h
      · rcases List.mem_cons.mp h with rfl | h
        · exact Nat.le_refl _
        · exact (Nat.le_add_right _ _).trans (ih h)
      · exact (Nat.le_add_right _ _).trans (ih h)

theorem replaceChars_keep {i : ℕ} {s t : List Char}
    (h : ∀ j ∈ occurrences pattern 0 i (s ++ t), i + s.length ≤ j) :
    occurrences pattern 0 i (s ++ t) = occurrences pattern 0 (i + s.length) t ∧
      replaceChars pattern new 0 (s ++ t) = s ++ replaceChars pattern new 0 t := by
  induction s generalizing i with
  | nil => exact ⟨rfl, rfl⟩
  | cons c s ih =>
    rw [List.cons_append, occurrences] at h ⊢
    rw [replaceChars]
    split_ifs at h ⊢
    · have hi := h i List.mem_cons_self
      rw [List.length_cons] at hi
      omega
    · rw [List.length_cons, ← Nat.add_assoc, Nat.add_right_comm] at h ⊢
      obtain ⟨hoccurrences, hreplace⟩ := ih h
      exact ⟨hoccurrences, congrArg (c :: ·) hreplace⟩

/-- **If a mark is found just where its slots are, replacing it fills them.** -/
theorem replaceChars_render (hmark : ∀ name, mark name ≠ []) {i : ℕ} {pieces : List (Piece ι)}
    (h : occurrences (mark name) 0 i (render mark value pieces) =
      slotsAt mark value name i pieces) :
    replaceChars (mark name) new 0 (render mark value pieces) =
      render mark (Function.update value name ((value name).or (some new))) pieces := by
  induction pieces generalizing i with
  | nil => rfl
  | cons piece pieces ih =>
    cases piece with
    | text c =>
      have hkeep := @replaceChars_keep (mark name) new i [c] (render mark value pieces) (by
        intro j hj
        exact le_of_mem_slotsAt (h ▸ hj))
      rw [slotsAt] at h
      rw [render, render]
      exact hkeep.2.trans (congrArg (c :: ·) (ih (hkeep.1.symm.trans h)))
    | slot name' =>
      rw [slotsAt] at h
      rw [render] at h ⊢
      by_cases hname : name' = name ∧ value name = none
      · rw [if_pos hname] at h
        obtain ⟨rfl, hnone⟩ := hname
        rw [render, Function.update_self, hnone, Option.none_or, Option.getD_some, Option.getD_none]
        rw [hnone, Option.getD_none] at h
        cases hm : mark name' with
        | nil => exact absurd hm (hmark name')
        | cons d pattern =>
          have hprefix : (d :: pattern).isPrefixOf (d :: pattern ++ render mark value pieces) = true :=
            List.isPrefixOf_iff_prefix.mpr (List.prefix_append _ _)
          rw [hm, List.cons_append, occurrences, ← List.cons_append, if_pos hprefix,
            List.length_cons, Nat.add_sub_cancel, occurrences_skip, Nat.add_assoc,
            Nat.add_comm 1, ← hm] at h
          rw [List.cons_append, replaceChars, ← List.cons_append, if_pos hprefix, List.length_cons,
            Nat.add_sub_cancel, replaceChars_skip, ← hm, ih (List.cons.inj h).2]
          rw [hnone]
          rfl
      · rw [if_neg hname] at h
        have hkeep := @replaceChars_keep (mark name) new i ((value name').getD (mark name'))
          (render mark value pieces) fun j hj => le_of_mem_slotsAt (h ▸ hj)
        have hvalue : Function.update value name ((value name).or (some new)) name' =
            value name' := by
          by_cases heq : name' = name
          · rw [heq, Function.update_self]
            cases hval : value name with
            | none => exact absurd ⟨heq, hval⟩ hname
            | some v => rfl
          · exact Function.update_of_ne heq _ _
        rw [render, hvalue, hkeep.2, ih (hkeep.1.symm.trans h)]

end Slots
