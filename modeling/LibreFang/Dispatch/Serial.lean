import LibreFang.Dispatch.Groups
import LibreFang.Lib.Interleaving

/-!
# Plans and serial runs

Tools work on files and on what virtual scopes stand for. A call that only reads writes nothing, and
a call with a scope keeps to what is at or below it; other calls may do anything.

* `Location`, `below`, `footprint`: what a call may touch and write.
* **`serial_of_reads_apart`**: it does where no call reads what a call of its group may write.
* **`serializable_iff`**: it always does if and only if one call is exclusive, or no neighbours are
  a call that only reads and a call with a scope.
-/

namespace LibreFang.Dispatch

open Paths Interleaving

/-- A place of the state that tools share. -/
inductive Location
  | file (components : List Component)
  | scope (key : String)
  deriving DecidableEq, Repr

/-- What is at or below a scope. -/
def below : NormalizedPath → Set Location
  | .real p => {l | ∃ components, l = .file components ∧ p.components <+: components}
  | .virtual key => {.scope key}

variable (cwd : Option Path) (defs : List ToolDefinition)

/-- What a call may touch and write, if a call that only reads touches what `reads` says. -/
def footprint (reads : ToolCall → Set Location) (call : ToolCall) : Footprint Location :=
  match safety defs call, scopeOf cwd defs call with
  | .readOnly, _ => ⟨reads call, ∅, Set.empty_subset _⟩
  | _, some p => ⟨below p, below p, subset_rfl⟩
  | _, none => ⟨Set.univ, Set.univ, subset_rfl⟩

/-- Every tool keeps to its footprint. -/
def Respects {Val Result : Type} (reads : ToolCall → Set Location)
    (tool : ToolCall → Program (Location → Val) Result) : Prop :=
  ∀ call, Within (footprint cwd defs reads call) (tool call)

/-- The results of a run of a plan, each with the index of its call, and the state that it leaves
are those of the calls one by one. -/
def Serial {Val Result : Type} (tool : ToolCall → Program (Location → Val) Result)
    (calls : List ToolCall) : Prop :=
  ∀ (s s' : Location → Val) (results : List (List Result)),
    Grouped ((planBatch cwd defs calls).groups.map fun group => (members calls group).map tool)
      s results s' →
    (planBatch cwd defs calls).groups.flatten.zip results.flatten =
        (List.range calls.length).zip (runAll (calls.map tool) s).1 ∧
      s' = (runAll (calls.map tool) s).2

/-- Whatever the tools do, if calls that only read write nothing and calls with a scope keep to it,
every run of the plan is as the calls one by one. -/
def Serializable (calls : List ToolCall) : Prop :=
  ∀ (Val Result : Type) (tool : ToolCall → Program (Location → Val) Result),
    Respects cwd defs (fun _ => Set.univ) tool → Serial cwd defs tool calls

variable {cwd defs}

/-! ## Scopes that do not overlap -/

theorem disjoint_below {p q : NormalizedPath} (h : pathsOverlap p q = false) :
    Disjoint (below p) (below q) := by
  rw [Set.disjoint_left]
  intro l hp hq
  cases p with
  | virtual x =>
    cases q with
    | virtual y =>
      obtain rfl : l = .scope x := hp
      obtain rfl : x = y := Location.scope.inj hq
      exact absurd (h.symm.trans (beq_self_eq_true x)) Bool.false_ne_true
    | real q =>
      obtain ⟨cs, rfl, -⟩ := hq
      cases hp
  | real p =>
    cases q with
    | virtual y =>
      obtain ⟨cs, rfl, -⟩ := hp
      cases hq
    | real q =>
      obtain ⟨cs, rfl, hp⟩ := hp
      obtain ⟨cs', hcs, hq⟩ := hq
      obtain rfl := Location.file.inj hcs
      obtain ⟨hpq, hqp⟩ := Bool.or_eq_false_iff.mp h
      unfold Path.startsWith at hpq hqp
      rw [Bool.eq_false_iff, ne_eq, List.isPrefixOf_iff_prefix] at hpq hqp
      exact (List.prefix_or_prefix_of_prefix hp hq).elim hqp hpq

variable {reads : ToolCall → Set Location}

theorem footprint_of_readOnly {call : ToolCall} (h : safety defs call = .readOnly) :
    footprint cwd defs reads call = ⟨reads call, ∅, Set.empty_subset _⟩ := by
  unfold footprint
  rw [h]

theorem footprint_of_scope {call : ToolCall} {p : NormalizedPath}
    (h : scopeOf cwd defs call = some p) :
    footprint cwd defs reads call = ⟨below p, below p, subset_rfl⟩ := by
  unfold footprint
  rw [(scopeOf_eq_some.mp h).1, h]

/-! ## Groups whose calls are independent -/

/-- No call of the group that only reads reads what another one of the group may write. -/
def ReadsApart (cwd : Option Path) (defs : List ToolDefinition) (reads : ToolCall → Set Location)
    (group : List ToolCall) : Prop :=
  ∀ c ∈ group, ∀ d ∈ group, safety defs c = .readOnly → ∀ p, scopeOf cwd defs d = some p →
    Disjoint (below p) (reads c)

theorem independent_of_shared {group : List ToolCall}
    (h : Shared cwd defs group) (hapart : ReadsApart cwd defs reads group) :
    (group.map (footprint cwd defs reads)).Pairwise Footprint.Independent := by
  rw [List.pairwise_map]
  refine (List.pairwise_filterMap.mp h.apart).imp_of_mem ?_
  intro c d hc hd hscopes
  obtain hcread | hcscope := h.reads_or_scoped c hc <;>
    obtain hdread | hdscope := h.reads_or_scoped d hd
  · rw [footprint_of_readOnly hcread, footprint_of_readOnly hdread]
    exact ⟨disjoint_bot_left, disjoint_bot_left⟩
  · obtain ⟨p, hp⟩ := Option.isSome_iff_exists.mp hdscope
    rw [footprint_of_readOnly hcread, footprint_of_scope hp]
    exact ⟨disjoint_bot_left, hapart c hc d hd hcread p hp⟩
  · obtain ⟨p, hp⟩ := Option.isSome_iff_exists.mp hcscope
    rw [footprint_of_scope hp, footprint_of_readOnly hdread]
    exact ⟨hapart d hd c hc hdread p hp, disjoint_bot_left⟩
  · obtain ⟨p, hp⟩ := Option.isSome_iff_exists.mp hcscope
    obtain ⟨q, hq⟩ := Option.isSome_iff_exists.mp hdscope
    rw [footprint_of_scope hp, footprint_of_scope hq]
    have hdisjoint := disjoint_below (hscopes p hp q hq)
    exact ⟨hdisjoint, hdisjoint.symm⟩

theorem independentPool {Val Result : Type} {tool : ToolCall → Program (Location → Val) Result}
    (htool : Respects cwd defs reads tool)
    {group : List ToolCall} (hshape : group.length ≤ 1 ∨ Shared cwd defs group)
    (hapart : ReadsApart cwd defs reads group) : IndependentPool (group.map tool) := by
  refine ⟨group.map (footprint cwd defs reads), ?_, ?_⟩
  · rw [List.forall₂_map_left_iff, List.forall₂_map_right_iff, List.forall₂_same]
    exact fun call _ => htool call
  · obtain hone | hshared := hshape
    · match group, hone with
      | [], _ => exact .nil
      | [call], _ => exact List.pairwise_singleton _ _
    · exact independent_of_shared hshared hapart

theorem flatten_pools {Val Result : Type} (tool : ToolCall → Program (Location → Val) Result)
    (calls : List ToolCall) : ((planBatch cwd defs calls).groups.map fun group =>
      (members calls group).map tool).flatten = calls.map tool := by
  conv_rhs => rw [← @flatten_members cwd defs calls, List.map_flatten,
    List.map_map]
  rfl

/-- **A plan is serial for tools by which no call reads what a call of its group may write.** -/
theorem serial_of_reads_apart {Val Result : Type}
    {tool : ToolCall → Program (Location → Val) Result}
    (htool : Respects cwd defs reads tool) {calls : List ToolCall}
    (hapart : ∀ group ∈ (planBatch cwd defs calls).groups,
      ReadsApart cwd defs reads (members calls group)) : Serial cwd defs tool calls := by
  intro s s' results hrun
  have hend := grouped_eq_runAll hrun (by
    intro pool hpool
    obtain ⟨group, hgroup, rfl⟩ := List.mem_map.mp hpool
    exact independentPool htool (shape_of_planBatch hgroup) (hapart group hgroup))
  rw [flatten_pools] at hend
  rw [planBatch_flatten, ← hend]
  exact ⟨rfl, rfl⟩

theorem Serial.results_eq {Val Result : Type} {tool : ToolCall → Program (Location → Val) Result}
    {calls : List ToolCall} (h : Serial cwd defs tool calls) {s s' : Location → Val}
    {results : List (List Result)}
    (hrun : Grouped ((planBatch cwd defs calls).groups.map fun group =>
      (members calls group).map tool) s results s') :
    (results.flatten, s') = runAll (calls.map tool) s := by
  obtain ⟨hzip, hstate⟩ := h s s' results hrun
  have hlength := hrun.length_eq
  rw [flatten_pools, List.length_map] at hlength
  have hresults := congrArg (List.map Prod.snd) hzip
  rw [planBatch_flatten, List.map_snd_zip, List.map_snd_zip] at hresults
  · rw [hresults, hstate]
  · rw [length_runAll, List.length_map, List.length_range]
  · rw [hlength, List.length_range]

/-! ## Calls that read what is written beside them -/

/-- A place in a scope. -/
def spot : NormalizedPath → Location
  | .real p => .file p.components
  | .virtual key => .scope key

theorem spot_mem_below (p : NormalizedPath) : spot p ∈ below p := by
  cases p with
  | real p => exact ⟨p.components, rfl, List.prefix_rfl⟩
  | virtual key => exact rfl

/-- Calls with the scope count at a place of it, and calls that only read look at the count. -/
def tally (cwd : Option Path) (defs : List ToolDefinition) (p : NormalizedPath)
    (call : ToolCall) : Program (Location → ℕ) ℕ :=
  if safety defs call = .readOnly then .act id fun s => .done (s (spot p))
  else if scopeOf cwd defs call = some p then
    .act (fun s => Function.update s (spot p) (s (spot p) + 1)) fun _ => .done 0
  else .done 0

theorem tally_respects (p : NormalizedPath) :
    Respects cwd defs (fun _ => Set.univ) (tally cwd defs p) := by
  intro call
  unfold tally
  split_ifs with hread hscope
  · rw [footprint_of_readOnly hread]
    refine ⟨fun _ _ _ => rfl, fun _ _ h => h, fun s t h => ?_, fun _ => trivial⟩
    exact congrArg Program.done (h (Set.mem_univ (spot p)))
  · rw [footprint_of_scope hscope]
    refine ⟨?_, ?_, fun _ _ _ => rfl, fun _ => trivial⟩
    · intro s l hl
      refine Function.update_of_ne ?_ _ _
      rintro rfl
      exact hl (spot_mem_below p)
    · intro s t h l hl
      dsimp only
      rw [h (spot_mem_below p)]
      by_cases hspot : l = spot p
      · rw [hspot, Function.update_self, Function.update_self]
      · rw [Function.update_of_ne hspot, Function.update_of_ne hspot, h hl]
  · trivial

theorem run_tally_of_readOnly {p : NormalizedPath} {call : ToolCall}
    (h : safety defs call = .readOnly) (s : Location → ℕ) :
    run (tally cwd defs p call) s = (s (spot p), s) := by
  unfold tally
  rw [if_pos h]
  rfl

theorem run_tally_of_scope {p : NormalizedPath} {call : ToolCall}
    (h : scopeOf cwd defs call = some p) (s : Location → ℕ) :
    (run (tally cwd defs p call) s).2 (spot p) = s (spot p) + 1 := by
  have hread : safety defs call ≠ .readOnly := by
    rw [(scopeOf_eq_some.mp h).1]
    decide
  unfold tally
  rw [if_neg hread, if_pos h]
  exact Function.update_self _ _ _

/-- **Mixed neighbours in a batch: some tools and some run of the plan tell it from the calls one by
one.** -/
theorem not_serializable {calls : List ToolCall}
    (hsafe : ∀ call ∈ calls, safety defs call ≠ .exclusive)
    (hmixed : ¬ calls.IsChain fun a b => ¬ Mixed cwd defs a b) : ¬ Serializable cwd defs calls := by
  intro hserial
  obtain ⟨group, hgroup, hchain⟩ := exists_mixed_group hsafe hmixed
  rw [List.isChain_iff_forall_rel_of_append_cons_cons] at hchain
  push Not at hchain
  obtain ⟨x, y, front, rest, hmembers, hxy⟩ := hchain
  obtain ⟨before, after, hgroups⟩ := List.append_of_mem hgroup
  -- whatever the scope, the two calls of the group can change places
  have hswap : ∀ p, ∃ s : Location → ℕ,
      (run (tally cwd defs p x) (run (tally cwd defs p y) s).2).1 = (run (tally cwd defs p x) s).1 ∧
      (run (tally cwd defs p y) s).1 = (run (tally cwd defs p y) (run (tally cwd defs p x) s).2).1 := by
    intro p
    have hrun : ∀ results s', Grouped _ (fun _ => 0) results s' → _ := fun results s' hrun =>
      (hserial ℕ ℕ _ (tally_respects p)).results_eq hrun
    rw [← @flatten_pools cwd defs, hgroups, List.map_append, List.map_cons,
      hmembers, List.map_append, List.map_cons, List.map_cons] at hrun
    exact ⟨_, run_of_neighbours hrun⟩
  obtain ⟨hread, hscope⟩ | ⟨hscope, hread⟩ := hxy
  · obtain ⟨p, hp⟩ := Option.isSome_iff_exists.mp hscope
    obtain ⟨s, hx, -⟩ := hswap p
    rw [run_tally_of_readOnly hread, run_tally_of_readOnly hread, run_tally_of_scope hp] at hx
    exact Nat.succ_ne_self _ hx
  · obtain ⟨p, hp⟩ := Option.isSome_iff_exists.mp hscope
    obtain ⟨s, -, hy⟩ := hswap p
    rw [run_tally_of_readOnly hread, run_tally_of_readOnly hread, run_tally_of_scope hp] at hy
    exact Nat.succ_ne_self _ hy.symm

/-- **Every run of a plan is as the calls one by one if and only if a call is exclusive, or no
neighbours are a call that only reads and a call with a scope.** -/
theorem serializable_iff (calls : List ToolCall) :
    Serializable cwd defs calls ↔
      (∃ call ∈ calls, safety defs call = .exclusive) ∨
        calls.IsChain fun a b => ¬ Mixed cwd defs a b := by
  constructor
  · intro hserial
    by_contra hcond
    obtain ⟨hsafe, hmixed⟩ := not_or.mp hcond
    exact not_serializable (fun call hcall hsafety => hsafe ⟨call, hcall, hsafety⟩) hmixed hserial
  · intro hcond Val Result tool htool
    refine serial_of_reads_apart htool ?_
    intro group hgroup c hc d hd hread p hp
    exact absurd (.inl ⟨hread, by rw [hp]; rfl⟩) (not_mixed_of_group hcond hgroup hc hd)

/-- A write and a read of one file are put into one group, where the read may come first. -/
theorem read_beside_write :
    let calls := [onFile "1" "file_write" "/notes", onFile "2" "file_read" "/notes"]
    (planBatch none [] calls).groups = [[0, 1]] ∧ ¬ Serializable none [] calls :=
  ⟨by decide, not_serializable (by decide) (by decide)⟩

end LibreFang.Dispatch
