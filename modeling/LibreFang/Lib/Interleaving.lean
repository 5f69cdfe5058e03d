import Mathlib.Data.List.Forall2
import Mathlib.Data.Set.Lattice
import Mathlib.Logic.Relation
import Mathlib.Order.CompletePartialOrder

/-!
# Interleaved programs

Programs that share a state and make their atomic steps in any order.

* `Program`, `run`, `runAll`: a program alone, and programs one after the other.
* **`grouped_eq_runAll`**: groups of independent programs end as the programs one by one do.
* **`run_of_neighbours`**: where they always do, neighbours of a group can change places.
-/

namespace Interleaving

/-- A program: it is done, or it makes an atomic step and goes on by the state that it met. -/
inductive Program (State Result : Type)
  | done (result : Result)
  | act (effect : State → State) (next : State → Program State Result)

section Runs

variable {State Result : Type}

/-- The result of a program that runs alone, and the state that it leaves. -/
def run : Program State Result → State → Result × State
  | .done result, s => (result, s)
  | .act effect next, s => run (next s) (effect s)

/-- The results of programs that run one after the other, and the state that they leave. -/
def runAll : List (Program State Result) → State → List Result × State
  | [], s => ([], s)
  | p :: ps, s =>
    let (result, s₁) := run p s
    let (results, s₂) := runAll ps s₁
    (result :: results, s₂)

/-- One program of a pool makes one atomic step. -/
inductive Step : State × List (Program State Result) → State × List (Program State Result) → Prop
  | act (s : State) (before after : List (Program State Result)) (effect : State → State)
      (next : State → Program State Result) :
      Step (s, before ++ .act effect next :: after) (effect s, before ++ next s :: after)

/-- Atomic steps of a pool, any number of them. -/
def Steps : State × List (Program State Result) → State × List (Program State Result) → Prop :=
  Relation.ReflTransGen Step

/-- The groups run one after the other, the programs of each in some interleaving to the end. -/
inductive Grouped : List (List (Program State Result)) → State → List (List Result) → State → Prop
  | nil (s : State) : Grouped [] s [] s
  | cons {group : List (Program State Result)} {groups : List (List (Program State Result))}
      {results : List Result} {rest : List (List Result)} {s s₁ s₂ : State}
      (head : Steps (s, group) (s₁, results.map .done)) (tail : Grouped groups s₁ rest s₂) :
      Grouped (group :: groups) s (results :: rest) s₂

theorem runAll_cons (p : Program State Result) (ps : List (Program State Result)) (s : State) :
    runAll (p :: ps) s =
      ((run p s).1 :: (runAll ps (run p s).2).1, (runAll ps (run p s).2).2) := rfl

theorem runAll_append (ps qs : List (Program State Result)) (s : State) :
    runAll (ps ++ qs) s = ((runAll ps s).1 ++ (runAll qs (runAll ps s).2).1,
      (runAll qs (runAll ps s).2).2) := by
  induction ps generalizing s with
  | nil => rfl
  | cons p ps ih => rw [List.cons_append, runAll_cons, runAll_cons, ih, List.cons_append]

theorem runAll_done (results : List Result) (s : State) :
    runAll (results.map .done) s = (results, s) := by
  induction results with
  | nil => rfl
  | cons result results ih =>
    rw [List.map_cons, runAll_cons]
    change (result :: (runAll (results.map .done) s).1, (runAll (results.map .done) s).2) = _
    rw [ih]

theorem length_runAll (ps : List (Program State Result)) (s : State) :
    (runAll ps s).1.length = ps.length := by
  induction ps generalizing s with
  | nil => rfl
  | cons p ps ih => rw [runAll_cons, List.length_cons, ih, List.length_cons]

theorem Steps.length_eq {c c' : State × List (Program State Result)} (h : Steps c c') :
    c'.2.length = c.2.length := by
  induction h with
  | refl => rfl
  | tail _ hstep ih =>
    obtain ⟨s, before, after, effect, next⟩ := hstep
    rw [← ih, List.length_append, List.length_append]
    rfl

theorem Grouped.length_eq {groups : List (List (Program State Result))}
    {results : List (List Result)} {s s' : State} (h : Grouped groups s results s') :
    results.flatten.length = groups.flatten.length := by
  induction h with
  | nil s => rfl
  | cons head tail ih =>
    rw [List.flatten_cons, List.flatten_cons, List.length_append, List.length_append, ih,
      ← head.length_eq, List.length_map]

/-! ## Runs that exist -/

theorem steps_run (p : Program State Result) (before after : List (Program State Result))
    (s : State) :
    Steps (s, before ++ p :: after) ((run p s).2, before ++ .done (run p s).1 :: after) := by
  induction p generalizing s with
  | done result => exact .refl
  | act effect next ih => exact .head (.act s before after effect next) (ih s (effect s))

theorem steps_runAll (ps before after : List (Program State Result)) (s : State) :
    Steps (s, before ++ ps ++ after)
      ((runAll ps s).2, before ++ (runAll ps s).1.map .done ++ after) := by
  induction ps generalizing before s with
  | nil => exact .refl
  | cons p ps ih =>
    have hhead := steps_run p before (ps ++ after) s
    have hrest := ih (before ++ [.done (run p s).1]) (run p s).2
    rw [List.append_assoc, List.append_assoc, List.append_assoc, List.append_assoc] at hrest
    rw [runAll_cons, List.map_cons, List.append_assoc, List.append_assoc]
    exact Relation.ReflTransGen.trans hhead hrest

theorem grouped_runAll (groups : List (List (Program State Result))) (s : State) :
    ∃ results, Grouped groups s results (runAll groups.flatten s).2 ∧
      results.flatten = (runAll groups.flatten s).1 := by
  induction groups generalizing s with
  | nil => exact ⟨[], .nil s, rfl⟩
  | cons group groups ih =>
    obtain ⟨results, hgroups, hresults⟩ := ih (runAll group s).2
    have hgroup := steps_runAll group [] [] s
    rw [List.append_nil, List.append_nil] at hgroup
    refine ⟨(runAll group s).1 :: results, ?_, ?_⟩
    · rw [List.flatten_cons, runAll_append]
      exact .cons hgroup hgroups
    · rw [List.flatten_cons, List.flatten_cons, runAll_append, hresults]

theorem Grouped.append {gs hs : List (List (Program State Result))} {xs ys : List (List Result)}
    {s s₁ s₂ : State} (hgs : Grouped gs s xs s₁) (hhs : Grouped hs s₁ ys s₂) :
    Grouped (gs ++ hs) s (xs ++ ys) s₂ := by
  induction hgs with
  | nil s => exact hhs
  | cons head tail ih => exact .cons head (ih hhs)

theorem steps_swapped (as bs : List (Program State Result)) (x y : Program State Result)
    (s : State) :
    ∃ rest s', Steps (s, as ++ x :: y :: bs) (s', ((runAll as s).1 ++
      (run x (run y (runAll as s).2).2).1 :: (run y (runAll as s).2).1 :: rest).map .done) := by
  have hfront := steps_runAll as [] (x :: y :: bs) s
  have hy := steps_run y ((runAll as s).1.map .done ++ [x]) bs (runAll as s).2
  have hx := steps_run x ((runAll as s).1.map .done) (.done (run y (runAll as s).2).1 :: bs)
    (run y (runAll as s).2).2
  have hback := steps_runAll bs ((runAll as s).1.map .done ++
    [.done (run x (run y (runAll as s).2).2).1, .done (run y (runAll as s).2).1]) []
    (run x (run y (runAll as s).2).2).2
  rw [List.append_assoc, List.append_assoc] at hy
  rw [List.append_nil, List.append_nil, List.append_assoc, List.append_assoc] at hback
  refine ⟨(runAll bs (run x (run y (runAll as s).2).2).2).1,
    (runAll bs (run x (run y (runAll as s).2).2).2).2, ?_⟩
  rw [List.map_append]
  exact Relation.ReflTransGen.trans hfront (.trans hy (.trans hx hback))

/-- **Where the groups always end as the programs one by one do, neighbours of a group can change
places.** -/
theorem run_of_neighbours {before after : List (List (Program State Result))}
    {as bs : List (Program State Result)} {x y : Program State Result} {s : State}
    (h : ∀ results s', Grouped (before ++ (as ++ x :: y :: bs) :: after) s results s' →
      (results.flatten, s') = runAll (before ++ (as ++ x :: y :: bs) :: after).flatten s) :
    let t := (runAll (before.flatten ++ as) s).2
    (run x (run y t).2).1 = (run x t).1 ∧ (run y t).1 = (run y (run x t).2).1 := by
  intro t
  obtain ⟨xs, hbefore, hxs⟩ := grouped_runAll before s
  obtain ⟨rest, s₁, hgroup⟩ := steps_swapped as bs x y (runAll before.flatten s).2
  obtain ⟨ys, hafter, -⟩ := grouped_runAll after s₁
  have hend := congrArg Prod.fst (h _ _ (hbefore.append (.cons hgroup hafter)))
  have ht : t = (runAll as (runAll before.flatten s).2).2 := by
    change (runAll (before.flatten ++ as) s).2 = _
    rw [runAll_append]
  rw [List.flatten_append, List.flatten_append, List.flatten_cons, List.flatten_cons, hxs,
    runAll_append, List.append_assoc as, runAll_append as, List.append_assoc] at hend
  have hpair := List.append_cancel_left (List.append_cancel_left hend)
  rw [List.cons_append, List.cons_append, List.cons_append, List.cons_append, runAll_cons,
    runAll_cons, ← ht] at hpair
  injection hpair with hx hpair
  injection hpair with hy
  exact ⟨hx, hy⟩

end Runs

/-! ## Footprints -/

/-- The locations that a program may touch, and those of them that it may write. -/
structure Footprint (Location : Type) where
  touched : Set Location
  written : Set Location
  subset : written ⊆ touched

/-- Neither of two footprints writes what the other touches. -/
def Footprint.Independent {Location : Type} (f g : Footprint Location) : Prop :=
  Disjoint f.written g.touched ∧ Disjoint g.written f.touched

section Commute

variable {Location Val Result : Type}

/-- Every step of the program depends on and keeps to the touched locations, and changes written
ones only. -/
def Within (f : Footprint Location) : Program (Location → Val) Result → Prop
  | .done _ => True
  | .act effect next =>
    (∀ s l, l ∉ f.written → effect s l = s l) ∧
    (∀ s t, Set.EqOn s t f.touched → Set.EqOn (effect s) (effect t) f.touched) ∧
    (∀ s t, Set.EqOn s t f.touched → next s = next t) ∧
    ∀ s, Within f (next s)

variable {f g : Footprint Location} {p : Program (Location → Val) Result}

theorem Within.run_eq (h : Within f p) (s : Location → Val)
    {l : Location} (hl : l ∉ f.written) : (run p s).2 l = s l := by
  induction p generalizing s with
  | done result => rfl
  | act effect next ih => exact (ih s (h.2.2.2 s) (effect s)).trans (h.1 s l hl)

theorem effect_comm (hfg : f.Independent g) {e₁ e₂ : (Location → Val) → Location → Val}
    (hkeep₁ : ∀ s l, l ∉ f.written → e₁ s l = s l)
    (hlocal₁ : ∀ s t, Set.EqOn s t f.touched → Set.EqOn (e₁ s) (e₁ t) f.touched)
    (hkeep₂ : ∀ s l, l ∉ g.written → e₂ s l = s l)
    (hlocal₂ : ∀ s t, Set.EqOn s t g.touched → Set.EqOn (e₂ s) (e₂ t) g.touched)
    (s : Location → Val) : e₁ (e₂ s) = e₂ (e₁ s) := by
  have hsame₁ : Set.EqOn (e₂ s) s f.touched := fun l hl =>
    hkeep₂ s l fun hw => Set.disjoint_left.mp hfg.2 hw hl
  have hsame₂ : Set.EqOn (e₁ s) s g.touched := fun l hl =>
    hkeep₁ s l fun hw => Set.disjoint_left.mp hfg.1 hw hl
  funext l
  by_cases hf : l ∈ f.written
  · have hg : l ∉ g.written := fun hw => Set.disjoint_left.mp hfg.2 hw (f.subset hf)
    rw [hkeep₂ (e₁ s) l hg]
    exact hlocal₁ _ _ hsame₁ (f.subset hf)
  · rw [hkeep₁ (e₂ s) l hf]
    by_cases hg : l ∈ g.written
    · exact (hlocal₂ _ _ hsame₂ (g.subset hg)).symm
    · rw [hkeep₂ s l hg, hkeep₂ (e₁ s) l hg, hkeep₁ s l hf]

theorem Within.run_effect (hfg : f.Independent g)
    (h : Within f p) {effect : (Location → Val) → Location → Val}
    (hkeep : ∀ s l, l ∉ g.written → effect s l = s l)
    (hlocal : ∀ s t, Set.EqOn s t g.touched → Set.EqOn (effect s) (effect t) g.touched)
    (s : Location → Val) : run p (effect s) = ((run p s).1, effect (run p s).2) := by
  induction p generalizing s with
  | done result => rfl
  | act e next ih =>
    obtain ⟨hkeep₁, hlocal₁, hnext, hwithin⟩ := h
    have hsame : Set.EqOn (effect s) s f.touched := fun l hl =>
      hkeep s l fun hw => Set.disjoint_left.mp hfg.2 hw hl
    change run (next (effect s)) (e (effect s)) = _
    rw [hnext _ _ hsame, effect_comm hfg hkeep₁ hlocal₁ hkeep hlocal]
    exact ih s (hwithin s) (e s)

/-! ## Pools of independent programs -/

/-- The programs of a pool keep to footprints that are independent of each other. -/
def IndependentPool (ps : List (Program (Location → Val) Result)) : Prop :=
  ∃ fs : List (Footprint Location), List.Forall₂ Within fs ps ∧ fs.Pairwise Footprint.Independent

variable {fs : List (Footprint Location)}

theorem exists_footprint
    {ps : List (Program (Location → Val) Result)} (h : List.Forall₂ Within fs ps) (hp : p ∈ ps) :
    ∃ g ∈ fs, Within g p := by
  induction h with
  | nil => exact absurd hp List.not_mem_nil
  | @cons f q fs qs hq hqs ih =>
    obtain rfl | hp := List.mem_cons.mp hp
    · exact ⟨f, List.mem_cons_self, hq⟩
    · obtain ⟨g, hg, hwithin⟩ := ih hp
      exact ⟨g, List.mem_cons_of_mem _ hg, hwithin⟩

theorem runAll_of_act {before after : List (Program (Location → Val) Result)}
    {effect : (Location → Val) → Location → Val}
    {next : (Location → Val) → Program (Location → Val) Result} (s : Location → Val)
    (hwithin : List.Forall₂ Within fs (before ++ .act effect next :: after))
    (hfs : fs.Pairwise Footprint.Independent) :
    runAll (before ++ next s :: after) (effect s) =
      runAll (before ++ .act effect next :: after) s ∧
    List.Forall₂ Within fs (before ++ next s :: after) := by
  induction before generalizing fs s with
  | nil =>
    obtain ⟨f, fs, hact, hafter, rfl⟩ := List.forall₂_cons_right_iff.mp hwithin
    exact ⟨rfl, .cons (hact.2.2.2 s) hafter⟩
  | cons p before ih =>
    obtain ⟨f, fs, hp, hrest, rfl⟩ := List.forall₂_cons_right_iff.mp hwithin
    obtain ⟨hf, hfs⟩ := List.pairwise_cons.mp hfs
    obtain ⟨g, hg, hact⟩ := exists_footprint hrest
      (List.mem_append_right _ List.mem_cons_self)
    have hnext : next (run p s).2 = next s := hact.2.2.1 _ _ fun l hl =>
      hp.run_eq s fun hw => Set.disjoint_left.mp (hf g hg).1 hw hl
    obtain ⟨hrun, hwithin'⟩ := ih (run p s).2 hrest hfs
    rw [hnext] at hrun hwithin'
    refine ⟨?_, .cons hp hwithin'⟩
    rw [List.cons_append, List.cons_append, runAll_cons, runAll_cons,
      hp.run_effect (hf g hg) hact.1 hact.2.1, hrun]

theorem runAll_of_steps {c c' : (Location → Val) × List (Program (Location → Val) Result)}
    (hsteps : Steps c c')
    (hwithin : List.Forall₂ Within fs c.2) (hfs : fs.Pairwise Footprint.Independent) :
    runAll c'.2 c'.1 = runAll c.2 c.1 := by
  have hrun : runAll c'.2 c'.1 = runAll c.2 c.1 ∧ List.Forall₂ Within fs c'.2 := by
    induction hsteps with
    | refl => exact ⟨rfl, hwithin⟩
    | tail _ hstep ih =>
      obtain ⟨s, before, after, effect, next⟩ := hstep
      obtain ⟨hact, hwithin'⟩ := runAll_of_act s ih.2 hfs
      exact ⟨hact.trans ih.1, hwithin'⟩
  exact hrun.1

/-- **Groups of independent programs end as the programs one by one do.** -/
theorem grouped_eq_runAll {groups : List (List (Program (Location → Val) Result))}
    {s s' : Location → Val} {results : List (List Result)}
    (hrun : Grouped groups s results s') (h : ∀ group ∈ groups, IndependentPool group) :
    (results.flatten, s') = runAll groups.flatten s := by
  induction hrun with
  | nil s => rfl
  | @cons group groups results rest s s₁ s₂ head tail ih =>
    obtain ⟨fs, hwithin, hfs⟩ := h group List.mem_cons_self
    have hgroup := runAll_of_steps head hwithin hfs
    rw [runAll_done] at hgroup
    rw [List.flatten_cons, List.flatten_cons, runAll_append, ← hgroup,
      ← ih fun g hg => h g (List.mem_cons_of_mem _ hg)]

end Commute

end Interleaving
