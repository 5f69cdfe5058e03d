import LibreFang.Lib.Runs

/-!
# A shared cell that is read and then written

A call loads a cell, computes, and saves; other calls take their steps in between.

* `System`, `step`: the cell and the calls.
* `Undisturbed`: a call saves only what it computed from the present value of the cell.
* **`serial`**: of undisturbed calls one may reason as if each were alone.
* **`saves_perm`**: the operations saved are those of the calls that are done.
-/

namespace Cell

open Runs

variable {σ ω : Type*}

/-- How far a call is. -/
inductive Phase (σ ω : Type*)
  | start (op : ω)
  | loaded (op : ω) (x : σ)
  | done (op : ω)

/-- The operation of a call that is done. -/
def Phase.done? : Phase σ ω → Option ω
  | .done op => some op
  | _ => none

/-- The cell and the calls; as history, every operation saved with the value that it was computed
from. -/
structure System (σ ω : Type*) where
  cell : σ
  calls : List (Phase σ ω)
  saves : List (ω × σ)

/-- One step: a call starts, loads or saves, or an operation is carried out at once. -/
inductive Event (ω : Type*)
  | call (op : ω)
  | step (i : ℕ)
  | atomic (op : ω)

variable (apply : ω → σ → σ)

/-- An operation is saved. -/
def save (s : System σ ω) (op : ω) (x : σ) (calls : List (Phase σ ω)) : System σ ω :=
  ⟨apply op x, calls, s.saves ++ [(op, x)]⟩

/-- A step of the system. -/
def step (s : System σ ω) : Event ω → System σ ω
  | .call op => { s with calls := s.calls ++ [.start op] }
  | .step i =>
    match s.calls[i]? with
    | some (.start op) => { s with calls := s.calls.set i (.loaded op s.cell) }
    | some (.loaded op x) => save apply s op x (s.calls.set i (.done op))
    | _ => s
  | .atomic op => save apply s op s.cell (s.calls ++ [.done op])

/-- The system before any call. -/
def init (x : σ) : System σ ω := ⟨x, [], []⟩

/-- What a step saves was computed from the present value of the cell, where the operation fits. -/
def Undisturbed (Fits : ω → σ → Prop) (s : System σ ω) : Event ω → Prop
  | .call _ => True
  | .step i => ∀ op x, s.calls[i]? = some (.loaded op x) → x = s.cell ∧ Fits op x
  | .atomic op => Fits op s.cell

variable {apply}

/-- **As if alone.** What each operation that fits preserves, from the value before it and the
operations saved so far, undisturbed calls preserve. -/
theorem serial {Fits : ω → σ → Prop} {J : σ → List (ω × σ) → Prop}
    (hstep : ∀ x saves op, J x saves → Fits op x → J (apply op x) (saves ++ [(op, x)])) {x : σ}
    (hinit : J x []) {events : List (Event ω)}
    (h : Along (step apply) (Undisturbed Fits) (init x) events) :
    J (after (step apply) (init x) events).cell (after (step apply) (init x) events).saves := by
  refine invariant (I := fun s => J s.cell s.saves) (fun s e hs hfits => ?_) hinit h
  cases e with
  | call op => exact hs
  | step i =>
    unfold step
    dsimp only
    cases hcall : s.calls[i]? with
    | none => exact hs
    | some phase =>
      cases phase with
      | start op => exact hs
      | loaded op y =>
        obtain ⟨rfl, hop⟩ := hfits op y hcall
        exact hstep _ _ op hs hop
      | done op => exact hs
  | atomic op => exact hstep _ _ op hs hfits

theorem filterMap_set_perm {α β : Type*} {f : α → Option β} {l : List α} {i : ℕ} {a b : α} {y : β}
    (hi : l[i]? = some a) (ha : f a = none) (hb : f b = some y) :
    ((l.set i b).filterMap f).Perm (l.filterMap f ++ [y]) := by
  induction l generalizing i with
  | nil => cases hi
  | cons c l ih =>
    cases i with
    | zero =>
      obtain rfl : c = a := Option.some.inj hi
      rw [List.set_cons_zero, List.filterMap_cons_some hb, List.filterMap_cons_none ha]
      exact (List.perm_append_singleton y _).symm
    | succ i =>
      rw [List.set_cons_succ]
      cases hc : f c with
      | none =>
        rw [List.filterMap_cons_none hc, List.filterMap_cons_none hc]
        exact ih hi
      | some z =>
        rw [List.filterMap_cons_some hc, List.filterMap_cons_some hc, List.cons_append]
        exact (ih hi).cons z

theorem filterMap_set_of_none {α β : Type*} {f : α → Option β} {l : List α} {i : ℕ} {a b : α}
    (hi : l[i]? = some a) (ha : f a = none) (hb : f b = none) :
    (l.set i b).filterMap f = l.filterMap f := by
  induction l generalizing i with
  | nil => cases hi
  | cons c l ih =>
    cases i with
    | zero =>
      obtain rfl : c = a := Option.some.inj hi
      rw [List.set_cons_zero, List.filterMap_cons_none hb, List.filterMap_cons_none ha]
    | succ i =>
      rw [List.set_cons_succ, List.filterMap_cons, List.filterMap_cons, ih hi]

/-- **The operations saved are those of the calls that are done**, in every run. -/
theorem saves_perm (x : σ) (events : List (Event ω)) :
    ((after (step apply) (init x) events).saves.map Prod.fst).Perm
      ((after (step apply) (init x) events).calls.filterMap Phase.done?) := by
  have hall : Along (step apply) (fun _ _ => True) (init x) events := by
    generalize init (ω := ω) x = s
    induction events generalizing s with
    | nil => trivial
    | cons e events ih => exact ⟨trivial, ih _⟩
  refine invariant (I := fun s => (s.saves.map Prod.fst).Perm (s.calls.filterMap Phase.done?))
    (fun s e hs _ => ?_) (List.Perm.refl _) hall
  cases e with
  | call op =>
    unfold step
    rw [List.filterMap_append]
    exact (List.append_nil _).symm ▸ hs
  | step i =>
    unfold step
    dsimp only
    cases hcall : s.calls[i]? with
    | none => exact hs
    | some phase =>
      cases phase with
      | start op =>
        dsimp only
        rw [filterMap_set_of_none hcall rfl rfl]
        exact hs
      | loaded op y =>
        unfold save
        dsimp only
        have hset : ((s.calls.set i (.done op)).filterMap Phase.done?).Perm
            (s.calls.filterMap Phase.done? ++ [op]) :=
          filterMap_set_perm (f := Phase.done?) hcall rfl rfl
        rw [List.map_append]
        exact (hs.append_right _).trans hset.symm
      | done op => exact hs
  | atomic op =>
    unfold step save
    dsimp only
    rw [List.map_append, List.filterMap_append]
    exact hs.append_right _

end Cell
