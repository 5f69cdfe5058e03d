import LibreFang.Lib.Runs
import LibreFang.Lib.Table

/-!
# Batches and alarms

Items are put under keys, and what is held under a key is taken all at once. Tasks wait until they
are due and then do one thing.

* `Mark`: what is seen of a store, items put and answers for what is taken.
* `next`, `held`: what is held under a key after a mark, and after a history.
* **`puts_eq`**: every item is in one batch, or still held.
* **`forall₂_of_along`**: if every answer is right for what is held, the answers fit the batches.
-/

namespace Batches

/-- What is seen of a store. -/
inductive Mark (κ α ρ : Type*)
  | put (key : κ) (item : α)
  | take (key : κ) (answer : ρ)
  deriving DecidableEq, Repr

variable {κ α ρ : Type*} [DecidableEq κ] (key : κ)

/-- What is held under a key after a mark. -/
def next (items : List α) : Mark κ α ρ → List α
  | .put k item => if k = key then items ++ [item] else items
  | .take k _ => if k = key then [] else items

/-- What is held under a key after a history. -/
def held (items : List α) (marks : List (Mark κ α ρ)) : List α := Runs.after (next key) items marks

/-- What is taken under a key. -/
def batches : List α → List (Mark κ α ρ) → List (List α)
  | _, [] => []
  | items, .put k item :: marks => batches (next key items (.put k item : Mark κ α ρ)) marks
  | items, .take k _ :: marks => if k = key then items :: batches [] marks else batches items marks

/-- The answers for what is taken under a key. -/
def answers : List (Mark κ α ρ) → List ρ
  | [] => []
  | .put _ _ :: marks => answers marks
  | .take k answer :: marks => if k = key then answer :: answers marks else answers marks

/-- The items put under a key. -/
def puts : List (Mark κ α ρ) → List α
  | [] => []
  | .put k item :: marks => if k = key then item :: puts marks else puts marks
  | .take _ _ :: marks => puts marks

/-- **Every item is in one batch, in order, or still held.** -/
theorem puts_eq (items : List α) (marks : List (Mark κ α ρ)) :
    items ++ puts key marks = (batches key items marks).flatten ++ held key items marks := by
  unfold held
  induction marks generalizing items with
  | nil => exact List.append_nil _
  | cons mark marks ih =>
    rw [Runs.after_cons]
    cases mark with
    | put k item =>
      rw [batches, ← ih, puts, next]
      by_cases h : k = key
      · rw [if_pos h, if_pos h, List.append_assoc, List.singleton_append]
      · rw [if_neg h, if_neg h]
    | take k answer =>
      rw [batches, puts, next]
      by_cases h : k = key
      · rw [if_pos h, if_pos h, List.flatten_cons, List.append_assoc, ← ih, List.nil_append]
      · rw [if_neg h, if_neg h, ih]

/-- **If every answer is right for what is held**, the answers fit the batches. -/
theorem forall₂_of_along {R : List α → ρ → Prop} {items : List α} {marks : List (Mark κ α ρ)}
    (h : Runs.Along (next key) (fun items mark => ∀ answer, mark = .take key answer → R items answer)
      items marks) :
    List.Forall₂ R (batches key items marks) (answers key marks) := by
  induction marks generalizing items with
  | nil => exact .nil
  | cons mark marks ih =>
    obtain ⟨hmark, hrest⟩ := h
    cases mark with
    | put k item => exact ih hrest
    | take k answer =>
      rw [batches, answers]
      rw [next] at hrest
      by_cases hkey : k = key
      · rw [if_pos hkey] at hrest ⊢
        rw [if_pos hkey]
        exact .cons (hmark answer (hkey ▸ rfl)) (ih hrest)
      · rw [if_neg hkey] at hrest ⊢
        rw [if_neg hkey]
        exact ih hrest

end Batches

/-! ## Alarms -/

/-- The live tasks by number; new ones get `next`. -/
structure Alarms (τ : Type*) where
  live : Table ℕ τ
  next : ℕ
  below : ∀ id ∈ live, id < next

namespace Alarms

variable {τ : Type*}

/-- No task is live. -/
def idle : Alarms τ := ⟨∅, 0, fun id h => absurd h (AList.notMem_empty id)⟩

/-- The task of a number, if it is live. -/
def get? (a : Alarms τ) (id : ℕ) : Option τ := a.live.lookup id

/-- A new task. -/
def set (a : Alarms τ) (task : τ) : Alarms τ :=
  ⟨a.live.insert a.next task, a.next + 1, fun id h => by
    rcases AList.mem_insert _ |>.mp h with rfl | hlive
    · exact Nat.lt_succ_self _
    · exact Nat.lt_succ_of_lt (a.below id hlive)⟩

/-- A task taken out; nothing happens where it has gone off. -/
def abort (a : Alarms τ) (id : ℕ) : Alarms τ :=
  ⟨a.live.erase id, a.next, fun id' h => a.below id' (AList.mem_erase.mp h).2⟩

theorem get?_next_le {a : Alarms τ} {id : ℕ} (h : a.next ≤ id) : a.get? id = none :=
  AList.lookup_eq_none.mpr fun hlive => absurd (a.below id hlive) (Nat.not_lt.mpr h)

theorem get?_set (a : Alarms τ) (task : τ) (id : ℕ) :
    (a.set task).get? id = if id = a.next then some task else a.get? id := by
  by_cases h : id = a.next
  · rw [if_pos h, h]
    exact AList.lookup_insert _
  · rw [if_neg h]
    exact AList.lookup_insert_ne h

theorem get?_set_of_lt {a : Alarms τ} (task : τ) {id : ℕ} (h : id < a.next) :
    (a.set task).get? id = a.get? id := by
  rw [get?_set, if_neg (Nat.ne_of_lt h)]

theorem get?_abort (a : Alarms τ) (id id' : ℕ) :
    (a.abort id).get? id' = if id' = id then none else a.get? id' := by
  by_cases h : id' = id
  · rw [if_pos h, h]
    exact AList.lookup_erase _ _
  · rw [if_neg h]
    exact AList.lookup_erase_ne h

end Alarms
