import Mathlib.Data.List.Basic
import Mathlib.Data.List.Flatten

/-!
# Lists cut into pieces

A list is cut into gaps and the parts that have been found in it; the found parts are to be written
anew, each by a rule.

* `render`: the list with the found parts written by a rule; `values`: the found parts.
* `chunks`: what is between the parts with one value; **`intercalate_chunks`**: joined by something
  else, it is the list with these parts written so.
-/

namespace Pieces

variable {α : Type*}

/-- A gap, or a part that has been found. -/
inductive Piece (α : Type*)
  | gap (s : List α)
  | found (s : List α)
  deriving DecidableEq

/-- The list, with the found parts written by a rule. -/
def render (f : List α → List α) : List (Piece α) → List α
  | [] => []
  | .gap s :: ps => s ++ render f ps
  | .found s :: ps => f s ++ render f ps

/-- The found parts. -/
def values : List (Piece α) → List (List α)
  | [] => []
  | .gap _ :: ps => values ps
  | .found s :: ps => s :: values ps

variable {f g : List α → List α} {v : List α}

theorem render_congr {ps : List (Piece α)} (h : ∀ s ∈ values ps, f s = g s) :
    render f ps = render g ps := by
  induction ps with
  | nil => rfl
  | cons p ps ih =>
    cases p with
    | gap s => rw [render, render, ih h]
    | found s =>
      rw [values, List.forall_mem_cons] at h
      rw [render, render, h.1, ih h.2]

theorem intercalate_modifyHead {new s : List α} {cs : List (List α)} (hne : cs ≠ []) :
    new.intercalate (cs.modifyHead (s ++ ·)) = s ++ new.intercalate cs := by
  obtain ⟨c, cs, rfl⟩ := List.exists_cons_of_ne_nil hne
  rw [List.modifyHead_cons]
  cases cs with
  | nil => rw [List.intercalate_singleton, List.intercalate_singleton]
  | cons d cs =>
    rw [List.intercalate_cons_cons, List.intercalate_cons_cons, List.append_assoc,
      List.append_assoc, List.append_assoc]

variable [DecidableEq α]

/-- What is between the parts with the value `v`. -/
def chunks (v : List α) (f : List α → List α) : List (Piece α) → List (List α)
  | [] => [[]]
  | .gap s :: ps => (chunks v f ps).modifyHead (s ++ ·)
  | .found s :: ps =>
    if s = v then [] :: chunks v f ps else (chunks v f ps).modifyHead (f s ++ ·)

theorem chunks_ne_nil (ps : List (Piece α)) : chunks v f ps ≠ [] := by
  induction ps with
  | nil => exact List.cons_ne_nil _ _
  | cons p ps ih =>
    obtain ⟨c, cs, hcs⟩ := List.exists_cons_of_ne_nil ih
    cases p with
    | gap s =>
      rw [chunks, hcs]
      exact List.cons_ne_nil _ _
    | found s =>
      rw [chunks]
      split
      · exact List.cons_ne_nil _ _
      · rw [hcs]
        exact List.cons_ne_nil _ _

/-- **The parts with one value written anew.** -/
theorem intercalate_chunks (new : List α) (ps : List (Piece α)) :
    new.intercalate (chunks v f ps) = render (fun s => if s = v then new else f s) ps := by
  induction ps with
  | nil => rfl
  | cons p ps ih =>
    have hne := chunks_ne_nil (v := v) (f := f) ps
    cases p with
    | gap s => rw [chunks, render, intercalate_modifyHead hne, ih]
    | found s =>
      rw [chunks, render]
      split
      · rw [List.intercalate_cons_of_ne_nil hne, ih, List.nil_append]
      · rw [intercalate_modifyHead hne, ih]

end Pieces

/-!
## Texts that come in pieces

A reader takes a text piece by piece and keeps a state between the pieces.

* `feed`: the outputs for all pieces.
* **`feed_spec`**: if after every piece the output and what is to come are what was to come before
  it, the pieces do not matter.
-/

namespace Streams

variable {σ α β γ : Type*} (step : σ → List α → Option (List β × σ))

/-- The outputs for pieces of a text, and the state after them. -/
def feed : σ → List (List α) → Option (List β × σ)
  | s, [] => some ([], s)
  | s, piece :: pieces =>
    (step s piece).bind fun result =>
      (feed result.2 pieces).map fun rest => (result.1 ++ rest.1, rest.2)

variable {step} {I : σ → List (List α) → Prop} {shown : β → List γ} {future : σ → List α → List γ}

/-- **What a reader puts out does not depend on the pieces**; `I` is about the state and the pieces
that are left. -/
theorem feed_spec (hstep : ∀ s piece pieces, I s (piece :: pieces) → ∃ out s',
      step s piece = some (out, s') ∧ I s' pieces ∧
      out.flatMap shown ++ future s' pieces.flatten = future s (piece ++ pieces.flatten))
    {s : σ} {pieces : List (List α)} (h : I s pieces) :
    ∃ out s', feed step s pieces = some (out, s') ∧ I s' [] ∧
      out.flatMap shown ++ future s' [] = future s pieces.flatten := by
  induction pieces generalizing s with
  | nil => exact ⟨[], s, rfl, h, rfl⟩
  | cons piece pieces ih =>
    obtain ⟨out, s₁, hone, h₁, hfuture⟩ := hstep s piece pieces h
    obtain ⟨outs, s₂, hrest, h₂, hfutures⟩ := ih h₁
    refine ⟨out ++ outs, s₂, ?_, h₂, ?_⟩
    · rw [feed, hone, Option.bind_some, hrest]
      rfl
    · rw [List.flatMap_append, List.append_assoc, hfutures, hfuture, List.flatten_cons]

end Streams
