import Mathlib.Data.List.Basic

/-!
# Files of lines

A text file as a list of bytes, and its lines.

* `lines`: the lines of a file, without their ends.
* `Terminated`: the last line of the file has its end.
* **`lines_append`**: what is appended to a terminated file adds its lines.
* **`lines_unlines`**: the lines of a file that was written line by line.
-/

namespace Lines

/-- The byte that ends a line. -/
def newline : UInt8 := 10

/-- The byte that belongs to the end of a line when it stands before a `newline`. -/
def carriageReturn : UInt8 := 13

/-- The lines of a file. -/
def lines : List UInt8 → List (List UInt8)
  | [] => []
  | b :: bs =>
    if b = newline then [] :: lines bs
    else if b = carriageReturn ∧ bs.head? = some newline then lines bs
    else
      match lines bs with
      | [] => [[b]]
      | line :: rest => (b :: line) :: rest

/-- The last line of the file has its end. -/
def Terminated (bs : List UInt8) : Prop := ∀ b ∈ bs.getLast?, b = newline

/-- The bytes of a line that can be read back. -/
def Plain (line : List UInt8) : Prop :=
  newline ∉ line ∧ line.getLast? ≠ some carriageReturn

/-- Lines, each with its end. -/
def unlines (ls : List (List UInt8)) : List UInt8 := ls.flatMap (· ++ [newline])

theorem terminated_nil : Terminated [] := fun _ h => nomatch h

theorem terminated_append_newline (bs : List UInt8) : Terminated (bs ++ [newline]) := by
  intro b hb
  rw [List.getLast?_concat] at hb
  exact (Option.some.inj hb).symm

theorem Terminated.append {bs cs : List UInt8} (hb : Terminated bs) (hc : Terminated cs) :
    Terminated (bs ++ cs) := by
  cases cs with
  | nil => rwa [List.append_nil]
  | cons c cs =>
    intro b hlast
    rw [List.getLast?_append_cons] at hlast
    exact hc b hlast

theorem terminated_unlines (ls : List (List UInt8)) : Terminated (unlines ls) := by
  induction ls with
  | nil => exact terminated_nil
  | cons line ls ih => exact (terminated_append_newline line).append ih

theorem lines_ne_nil {bs : List UInt8} (h : bs ≠ []) : lines bs ≠ [] := by
  induction bs with
  | nil => exact absurd rfl h
  | cons b bs ih =>
    unfold lines
    split_ifs with hnewline hreturn
    · exact List.cons_ne_nil _ _
    · refine ih fun hnil => ?_
      rw [hnil] at hreturn
      cases hreturn.2
    · cases lines bs with
      | nil => exact List.cons_ne_nil _ _
      | cons line rest => exact List.cons_ne_nil _ _

/-- **What is appended to a terminated file adds its lines.** -/
theorem lines_append {bs : List UInt8} (h : Terminated bs) (cs : List UInt8) :
    lines (bs ++ cs) = lines bs ++ lines cs := by
  induction bs with
  | nil => rfl
  | cons b bs ih =>
    cases bs with
    | nil =>
      obtain rfl : b = newline := h b rfl
      rfl
    | cons b' bs =>
      have hrest : Terminated (b' :: bs) := fun x hx => h x hx
      have hne : lines (b' :: bs) ≠ [] := lines_ne_nil (List.cons_ne_nil _ _)
      rw [List.cons_append, lines, lines, ih hrest]
      by_cases hnewline : b = newline
      · rw [if_pos hnewline, if_pos hnewline]
        rfl
      rw [if_neg hnewline, if_neg hnewline]
      by_cases hreturn : b = carriageReturn ∧ (b' :: bs).head? = some newline
      · have hreturn' : b = carriageReturn ∧ (b' :: bs ++ cs).head? = some newline := hreturn
        rw [if_pos hreturn, if_pos hreturn']
      have hreturn' : ¬ (b = carriageReturn ∧ (b' :: bs ++ cs).head? = some newline) := hreturn
      rw [if_neg hreturn, if_neg hreturn']
      cases hlines : lines (b' :: bs) with
      | nil => exact absurd hlines hne
      | cons line rest => rfl

theorem lines_line {line : List UInt8} (h : Plain line) : lines (line ++ [newline]) = [line] := by
  induction line with
  | nil => rfl
  | cons b line ih =>
    obtain ⟨hmem, hlast⟩ := h
    rw [List.mem_cons, not_or] at hmem
    have hne : b ≠ newline := Ne.symm hmem.1
    have hreturn : ¬ (b = carriageReturn ∧ (line ++ [newline]).head? = some newline) := by
      rintro ⟨rfl, hhead⟩
      cases line with
      | nil => exact hlast rfl
      | cons b' line =>
        obtain rfl : b' = newline := Option.some.inj hhead
        exact hmem.2 List.mem_cons_self
    have hrest : Plain line := by
      refine ⟨hmem.2, fun hcr => hlast ?_⟩
      cases line with
      | nil => cases hcr
      | cons b' line => exact hcr
    rw [List.cons_append, lines, if_neg hne, if_neg hreturn, ih hrest]

theorem lines_unended {line : List UInt8} (hmem : newline ∉ line) (hne : line ≠ []) :
    lines line = [line] := by
  induction line with
  | nil => exact absurd rfl hne
  | cons b line ih =>
    rw [List.mem_cons, not_or] at hmem
    have hreturn : ¬ (b = carriageReturn ∧ line.head? = some newline) := by
      rintro ⟨-, hhead⟩
      exact hmem.2 (List.mem_of_head? hhead)
    rw [lines, if_neg (Ne.symm hmem.1), if_neg hreturn]
    cases line with
    | nil => rfl
    | cons b' line => rw [ih hmem.2 (List.cons_ne_nil _ _)]

theorem eq_nil_of_terminated {bs tail : List UInt8} (h : Terminated (bs ++ tail))
    (hmem : newline ∉ tail) : tail = [] := by
  rcases List.eq_nil_or_concat' tail with rfl | ⟨front, b, rfl⟩
  · rfl
  · obtain rfl := h b (by rw [← List.append_assoc, List.getLast?_concat, Option.mem_some_iff])
    exact absurd (List.mem_append_right front (List.mem_singleton_self _)) hmem

/-- **The lines of a file that was written line by line.** -/
theorem lines_unlines {ls : List (List UInt8)} (h : ∀ line ∈ ls, Plain line) :
    lines (unlines ls) = ls := by
  induction ls with
  | nil => rfl
  | cons line ls ih =>
    rw [List.forall_mem_cons] at h
    have hsplit : unlines (line :: ls) = (line ++ [newline]) ++ unlines ls := rfl
    rw [hsplit, lines_append (terminated_append_newline line), lines_line h.1, ih h.2]
    rfl

end Lines
