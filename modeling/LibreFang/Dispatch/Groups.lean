import Mathlib.Data.List.Chain
import LibreFang.Dispatch.Plan

/-!
# The groups of a plan

* `scopeOf`: the scope that a call of the planner's loop reserves; `Mixed`: a call that only reads
  and one with a scope.
* **`planBatch_flatten`**: the groups in order are all calls in order.
* **`shape_of_planBatch`**: a group of more than one call holds calls that only read and calls whose
  scopes do not overlap.
* **`exists_mixed_group`**: neighbours of which one reads and one has a scope put such neighbours
  into one group.
-/

namespace LibreFang.Dispatch

open Paths

variable (cwd : Option Path) (defs : List ToolDefinition)

/-- The scope of a call that writes no more than its scope. -/
def scopeOf (call : ToolCall) : Option NormalizedPath :=
  if safety defs call = .writeScoped then extractScopePath cwd call.name call.input else none

/-- One of the calls only reads, and the other has a scope. -/
def Mixed (a b : ToolCall) : Prop :=
  safety defs a = .readOnly ∧ (scopeOf cwd defs b).isSome ∨
    (scopeOf cwd defs a).isSome ∧ safety defs b = .readOnly

instance (a b : ToolCall) : Decidable (Mixed cwd defs a b) := by
  unfold Mixed
  infer_instance

/-- The calls of a group. -/
def members (calls : List ToolCall) (group : List ℕ) : List ToolCall := group.filterMap (calls[·]?)

/-- Every call only reads or has a scope, and no two scopes overlap. -/
structure Shared (group : List ToolCall) : Prop where
  reads_or_scoped : ∀ call ∈ group, safety defs call = .readOnly ∨ (scopeOf cwd defs call).isSome
  apart : (group.filterMap (scopeOf cwd defs)).Pairwise fun p q => pathsOverlap p q = false

/-- What the planner's loop has made of the calls before an index. -/
structure Good (calls : List ToolCall) (i : ℕ) (b : Buckets) : Prop where
  order : b.groups.flatten ++ b.current = List.range i
  closed : ∀ group ∈ b.groups,
    group.length ≤ 1 ∨ Shared cwd defs (members calls group)
  shared : Shared cwd defs (members calls b.current)
  paths : b.currentPaths = (members calls b.current).filterMap (scopeOf cwd defs)

variable {cwd defs}

theorem pathsOverlap_comm (p q : NormalizedPath) : pathsOverlap p q = pathsOverlap q p := by
  cases p <;> cases q
  · exact Bool.or_comm _ _
  · rfl
  · rfl
  · exact Bool.beq_comm

variable {calls : List ToolCall} {call : ToolCall} {i : ℕ} {group : List ℕ}

theorem members_append
    (h : calls[i]? = some call) : members calls (group ++ [i]) = members calls group ++ [call] := by
  unfold members
  rw [List.filterMap_append, List.filterMap_cons, h, List.filterMap_nil]

theorem scopeOf_of_readOnly (h : safety defs call = .readOnly) : scopeOf cwd defs call = none := by
  unfold scopeOf
  rw [h, if_neg (by decide)]

theorem scopeOf_eq_some {p : NormalizedPath} :
    scopeOf cwd defs call = some p ↔
      safety defs call = .writeScoped ∧ extractScopePath cwd call.name call.input = some p := by
  unfold scopeOf
  split_ifs with hsafety
  · exact (and_iff_right hsafety).symm
  · exact iff_of_false nofun fun h => hsafety h.1

theorem Shared.nil : Shared cwd defs [] := ⟨fun _ h => absurd h List.not_mem_nil, .nil⟩

theorem Shared.append {group : List ToolCall} (h : Shared cwd defs group)
    (hcall : safety defs call = .readOnly ∨ (scopeOf cwd defs call).isSome)
    (hapart : ∀ p q, scopeOf cwd defs call = some p → q ∈ group.filterMap (scopeOf cwd defs) →
      pathsOverlap p q = false) : Shared cwd defs (group ++ [call]) := by
  refine ⟨?_, ?_⟩
  · intro c hc
    obtain hc | hc := List.mem_append.mp hc
    · exact h.reads_or_scoped c hc
    · obtain rfl := List.mem_singleton.mp hc
      exact hcall
  · rw [List.filterMap_append, List.pairwise_append]
    refine ⟨h.apart, ?_, ?_⟩
    · cases hscope : scopeOf cwd defs call with
      | none => rw [List.filterMap_cons_none hscope]; exact .nil
      | some p => rw [List.filterMap_cons_some hscope]; exact List.pairwise_singleton _ _
    · intro q hq p hp
      obtain ⟨c, hc, hscope⟩ := List.mem_filterMap.mp hp
      obtain rfl := List.mem_singleton.mp hc
      rw [pathsOverlap_comm]
      exact hapart p q hscope hq

/-! ## One call -/

variable {b : Buckets}

theorem Good.flush (h : Good cwd defs calls i b) : Good cwd defs calls i b.flush := by
  refine ⟨?_, ?_, .nil, rfl⟩
  · change (b.groups ++ [b.current]).flatten ++ [] = _
    rw [List.flatten_append, List.flatten_singleton, List.append_nil, h.order]
  · intro group hgroup
    obtain hgroup | hgroup := List.mem_append.mp hgroup
    · exact h.closed group hgroup
    · obtain rfl := List.mem_singleton.mp hgroup
      exact .inr h.shared

theorem Good.paths_of_empty
    (h : Good cwd defs calls i b) (hempty : b.current = []) : b.currentPaths = [] := by
  rw [h.paths, hempty]
  rfl

theorem Good.alone (h : Good cwd defs calls i b)
    (hempty : b.current = []) : Good cwd defs calls (i + 1) ⟨b.groups ++ [[i]], [], []⟩ := by
  refine ⟨?_, ?_, .nil, rfl⟩
  · have horder := h.order
    rw [hempty, List.append_nil] at horder
    change (b.groups ++ [[i]]).flatten ++ [] = _
    rw [List.flatten_append, List.flatten_singleton, List.append_nil, horder, List.range_succ]
  · intro group hgroup
    obtain hgroup | hgroup := List.mem_append.mp hgroup
    · exact h.closed group hgroup
    · obtain rfl := List.mem_singleton.mp hgroup
      exact .inl (Nat.le_refl 1)

theorem Good.join (h : Good cwd defs calls i b) (hcall : calls[i]? = some call)
    (hshared : safety defs call = .readOnly ∨ (scopeOf cwd defs call).isSome)
    (hapart : ∀ p q, scopeOf cwd defs call = some p → q ∈ b.currentPaths →
      pathsOverlap p q = false) :
    Good cwd defs calls (i + 1)
      ⟨b.groups, b.current ++ [i], b.currentPaths ++ (scopeOf cwd defs call).toList⟩ := by
  refine ⟨?_, h.closed, ?_, ?_⟩
  · rw [← List.append_assoc, h.order, List.range_succ]
  · rw [members_append hcall]
    exact h.shared.append hshared (h.paths ▸ hapart)
  · rw [members_append hcall, List.filterMap_append, h.paths]
    cases hscope : scopeOf cwd defs call with
    | none => rw [List.filterMap_cons_none hscope]; rfl
    | some p => rw [List.filterMap_cons_some hscope]; rfl

theorem Good.flush_unless_empty
    (h : Good cwd defs calls i b) :
    Good cwd defs calls i (if b.current.isEmpty then b else b.flush) ∧
      (if b.current.isEmpty then b else b.flush).current = [] := by
  split_ifs with hempty
  · exact ⟨h, List.isEmpty_iff.mp hempty⟩
  · exact ⟨h.flush, rfl⟩

theorem Good.place (h : Good cwd defs calls i b) (hcall : calls[i]? = some call)
    (hsafe : safety defs call ≠ .exclusive) :
    Good cwd defs calls (i + 1) (place cwd defs b i call) := by
  unfold Dispatch.place
  cases hsafety : safety defs call with
  | exclusive => exact absurd hsafety hsafe
  | writeShared =>
    obtain ⟨hgood, hempty⟩ := h.flush_unless_empty
    dsimp only
    rw [hempty, hgood.paths_of_empty hempty]
    exact hgood.alone hempty
  | readOnly =>
    have hjoin := h.join hcall (.inl hsafety) (by
      intro p q hp
      rw [scopeOf_of_readOnly hsafety] at hp
      cases hp)
    rw [scopeOf_of_readOnly hsafety, Option.toList_none, List.append_nil] at hjoin
    exact hjoin
  | writeScoped =>
    have hscopeOf : scopeOf cwd defs call = extractScopePath cwd call.name call.input :=
      if_pos hsafety
    cases hscope : extractScopePath cwd call.name call.input with
    | none =>
      obtain ⟨hgood, hempty⟩ := h.flush_unless_empty
      dsimp only
      generalize (if b.current.isEmpty then b else b.flush) = b₁ at hgood hempty ⊢
      dsimp only [Buckets.flush]
      rw [hempty]
      exact hgood.alone hempty
    | some p =>
      rw [hscope] at hscopeOf
      dsimp only
      split_ifs with hconflict
      · have hjoin := h.flush.join hcall (.inr (by rw [hscopeOf]; rfl)) fun p q _ hq =>
          absurd hq List.not_mem_nil
        rw [hscopeOf] at hjoin
        exact hjoin
      · have hjoin := h.join hcall (.inr (by rw [hscopeOf]; rfl)) (by
          intro p' q hp hq
          obtain rfl := Option.some.inj (hscopeOf.symm.trans hp)
          rw [Bool.not_eq_true, List.any_eq_false] at hconflict
          exact Bool.eq_false_iff.mpr (hconflict q hq))
        rw [hscopeOf] at hjoin
        exact hjoin

/-! ## All calls -/

theorem Good.placeAll {calls rest : List ToolCall}
    (h : Good cwd defs calls i b) (hrest : rest <+: calls.drop i)
    (hsafe : ∀ call ∈ rest, safety defs call ≠ .exclusive) :
    Good cwd defs calls (i + rest.length) (placeAll cwd defs b i rest) := by
  induction rest generalizing i b with
  | nil => exact h
  | cons call rest ih =>
    obtain ⟨post, hpost⟩ := hrest
    have hcall : calls[i]? = some call := by
      rw [← List.head?_drop, ← hpost, List.cons_append, List.head?_cons]
    have hdrop : calls.drop (i + 1) = rest ++ post := by
      rw [← List.tail_drop, ← hpost, List.cons_append, List.tail_cons]
    have hplaced := ih (h.place hcall (hsafe call List.mem_cons_self)) ⟨post, hdrop.symm⟩
      fun c hc => hsafe c (List.mem_cons_of_mem _ hc)
    rw [Nat.add_assoc, Nat.add_comm 1] at hplaced
    exact hplaced

theorem good_placeAll {calls rest : List ToolCall} (hrest : rest <+: calls)
    (hsafe : ∀ call ∈ calls, safety defs call ≠ .exclusive) :
    Good cwd defs calls rest.length (placeAll cwd defs ⟨[], [], []⟩ 0 rest) := by
  have hstart : Good cwd defs calls 0 ⟨[], [], []⟩ :=
    ⟨rfl, fun _ h => absurd h List.not_mem_nil, .nil, rfl⟩
  have hend := hstart.placeAll hrest fun call hcall => hsafe call (hrest.subset hcall)
  rw [Nat.zero_add] at hend
  exact hend

/-- The groups that are left when the loop has ended. -/
def Buckets.finish (b : Buckets) : List (List ℕ) :=
  if b.current.isEmpty then b.groups else b.groups ++ [b.current]

theorem Good.finish (h : Good cwd defs calls i b) :
    b.finish.flatten = List.range i ∧
      ∀ group ∈ b.finish, group.length ≤ 1 ∨ Shared cwd defs (members calls group) := by
  unfold Buckets.finish
  split_ifs with hempty
  · have horder := h.order
    rw [List.isEmpty_iff.mp hempty, List.append_nil] at horder
    exact ⟨horder, h.closed⟩
  · refine ⟨?_, h.flush.closed⟩
    rw [List.flatten_append, List.flatten_singleton, h.order]

theorem planBatch_groups (calls : List ToolCall) :
    (planBatch cwd defs calls).groups.flatten = List.range calls.length ∧
      ∀ group ∈ (planBatch cwd defs calls).groups,
        group.length ≤ 1 ∨ Shared cwd defs (members calls group) := by
  unfold planBatch
  split_ifs with hempty hone hexclusive
  · rw [List.isEmpty_iff.mp hempty]
    exact ⟨rfl, fun _ h => absurd h List.not_mem_nil⟩
  · refine ⟨by rw [hone]; rfl, ?_⟩
    intro group hgroup
    obtain rfl := List.mem_singleton.mp hgroup
    exact .inl (Nat.le_refl 1)
  · refine ⟨List.flatMap_singleton' _, ?_⟩
    intro group hgroup
    obtain ⟨i, -, rfl⟩ := List.mem_map.mp hgroup
    exact .inl (Nat.le_refl 1)
  · refine (good_placeAll List.prefix_rfl ?_).finish
    intro call hcall hsafety
    exact hexclusive (List.any_eq_true.mpr ⟨call, hcall, decide_eq_true hsafety⟩)

/-- **The groups in order are the calls in order.** -/
theorem planBatch_flatten (calls : List ToolCall) :
    (planBatch cwd defs calls).groups.flatten = List.range calls.length :=
  (planBatch_groups calls).1

theorem members_range (calls : List ToolCall) :
    members calls (List.range calls.length) = calls := by
  induction calls with
  | nil => rfl
  | cons call calls ih =>
    unfold members at ih ⊢
    rw [List.length_cons, List.range_succ_eq_map, List.filterMap_cons, List.getElem?_cons_zero,
      List.filterMap_map]
    exact congrArg (call :: ·) ih

/-- **The calls of the groups in order are the batch.** -/
theorem flatten_members (calls : List ToolCall) :
    ((planBatch cwd defs calls).groups.map (members calls)).flatten = calls := by
  conv_rhs => rw [← members_range calls, ← @planBatch_flatten cwd defs]
  exact List.filterMap_flatten.symm

theorem members_together
    (h : group ∈ (planBatch cwd defs calls).groups) : members calls group <:+: calls := by
  conv_rhs => rw [← @flatten_members cwd defs calls]
  exact List.infix_of_mem_flatten (List.mem_map_of_mem h)

/-- **A group of more than one call holds calls that only read and calls whose scopes do not
overlap.** -/
theorem shape_of_planBatch
    (h : group ∈ (planBatch cwd defs calls).groups) :
    (members calls group).length ≤ 1 ∨ Shared cwd defs (members calls group) :=
  ((planBatch_groups calls).2 group h).imp_left fun hle =>
    Nat.le_trans (List.length_filterMap_le _ _) hle

/-! ## Calls that read next to calls with a scope -/

theorem not_mixed_self (call : ToolCall) : ¬ Mixed cwd defs call call := by
  rintro (⟨hread, hscope⟩ | ⟨hscope, hread⟩) <;>
  · rw [scopeOf_of_readOnly hread] at hscope
    cases hscope

theorem Shared.not_mixed {group : List ToolCall} (h : Shared cwd defs group)
    (hchain : group.IsChain fun a b => ¬ Mixed cwd defs a b) {a b : ToolCall} (ha : a ∈ group)
    (hb : b ∈ group) : ¬ Mixed cwd defs a b := by
  -- neighbours both read or both have a scope, so all calls of the group do as the first one
  let Same (a b : ToolCall) : Prop := safety defs a = .readOnly ↔ safety defs b = .readOnly
  have hsame : group.IsChain Same := hchain.imp_of_mem_imp fun c d hc hd hcd => by
    constructor
    · exact fun hread => (h.reads_or_scoped d hd).resolve_right fun hscope =>
        hcd (.inl ⟨hread, hscope⟩)
    · exact fun hread => (h.reads_or_scoped c hc).resolve_right fun hscope =>
        hcd (.inr ⟨hscope, hread⟩)
  have : IsTrans ToolCall Same := ⟨fun _ _ _ hab hbc => hab.trans hbc⟩
  have : Std.Symm Same := ⟨fun _ _ hab => hab.symm⟩
  have hab : Same a b :=
    List.Pairwise.forall_of_forall (R := Same) (fun _ _ => Iff.rfl) hsame.pairwise ha hb
  rintro (⟨hread, hscope⟩ | ⟨hscope, hread⟩)
  · rw [scopeOf_of_readOnly (hab.mp hread)] at hscope
    cases hscope
  · rw [scopeOf_of_readOnly (hab.mpr hread)] at hscope
    cases hscope

theorem Buckets.mem_finish :
    group ∈ b.finish ↔ group ∈ b.groups ∨ group = b.current ∧ b.current ≠ [] := by
  unfold finish
  split_ifs with hempty
  · rw [List.isEmpty_iff] at hempty
    exact ⟨.inl, fun h => h.resolve_right fun hgroup => hgroup.2 hempty⟩
  · rw [List.isEmpty_iff] at hempty
    rw [List.mem_append, List.mem_singleton]
    exact or_congr_right ⟨fun h => ⟨h, hempty⟩, fun h => h.1⟩

/-- Every group stays; more calls may have joined it. -/
def Grows (b b' : Buckets) : Prop := ∀ group ∈ b.finish, ∃ group' ∈ b'.finish, group <+: group'

theorem Grows.refl (b : Buckets) : Grows b b := fun group h => ⟨group, h, List.prefix_rfl⟩

theorem Grows.trans {b₁ b₂ b₃ : Buckets} (h₁ : Grows b₁ b₂) (h₂ : Grows b₂ b₃) : Grows b₁ b₃ := by
  intro group hgroup
  obtain ⟨group₂, hgroup₂, hgrown₂⟩ := h₁ group hgroup
  obtain ⟨group₃, hgroup₃, hgrown₃⟩ := h₂ group₂ hgroup₂
  exact ⟨group₃, hgroup₃, hgrown₂.trans hgrown₃⟩

theorem grows_flush (b : Buckets) : Grows b b.flush := by
  intro group hgroup
  refine ⟨group, Buckets.mem_finish.mpr (.inl ?_), List.prefix_rfl⟩
  obtain hgroup | ⟨rfl, -⟩ := Buckets.mem_finish.mp hgroup
  · exact List.mem_append_left _ hgroup
  · exact List.mem_append_right _ List.mem_cons_self

theorem grows_flush_if (b : Buckets) (c : Bool) : Grows b (if c then b else b.flush) := by
  split_ifs
  · exact .refl b
  · exact grows_flush b

theorem grows_append (b : Buckets) (gs : List (List ℕ)) (is : List ℕ) (ps : List NormalizedPath) :
    Grows b ⟨b.groups ++ gs, b.current ++ is, ps⟩ := by
  intro group hgroup
  obtain hgroup | ⟨rfl, hne⟩ := Buckets.mem_finish.mp hgroup
  · exact ⟨group, Buckets.mem_finish.mpr (.inl (List.mem_append_left _ hgroup)), List.prefix_rfl⟩
  · exact ⟨b.current ++ is, Buckets.mem_finish.mpr (.inr ⟨rfl, fun h =>
      hne (List.append_eq_nil_iff.mp h).1⟩), List.prefix_append _ _⟩

theorem grows_place (b : Buckets) (i : ℕ) (call : ToolCall) :
    Grows b (place cwd defs b i call) := by
  unfold Dispatch.place
  cases safety defs call with
  | exclusive => exact .refl b
  | writeShared =>
    have hgrows := grows_append (if b.current.isEmpty then b else b.flush) [[i]] []
      (if b.current.isEmpty then b else b.flush).currentPaths
    rw [List.append_nil] at hgrows
    exact (grows_flush_if b _).trans hgrows
  | readOnly =>
    have hgrows := grows_append b [] [i] b.currentPaths
    rw [List.append_nil] at hgrows
    exact hgrows
  | writeScoped =>
    cases extractScopePath cwd call.name call.input with
    | none =>
      have hgrows := grows_append (if b.current.isEmpty then b else b.flush) [] [i]
        (if b.current.isEmpty then b else b.flush).currentPaths
      rw [List.append_nil] at hgrows
      exact ((grows_flush_if b _).trans hgrows).trans (grows_flush _)
    | some p =>
      dsimp only
      split_ifs
      · have hgrows := grows_append b.flush [] [i] (b.flush.currentPaths ++ [p])
        rw [List.append_nil] at hgrows
        exact (grows_flush b).trans hgrows
      · have hgrows := grows_append b [] [i] (b.currentPaths ++ [p])
        rw [List.append_nil] at hgrows
        exact hgrows

theorem grows_placeAll (b : Buckets) (i : ℕ) (rest : List ToolCall) :
    Grows b (placeAll cwd defs b i rest) := by
  induction rest generalizing b i with
  | nil => exact .refl b
  | cons call rest ih => exact (grows_place b i call).trans (ih _ _)

theorem placeAll_append (b : Buckets) (i : ℕ) (front rest : List ToolCall) :
    placeAll cwd defs b i (front ++ rest) =
      placeAll cwd defs (placeAll cwd defs b i front) (i + front.length) rest := by
  induction front generalizing b i with
  | nil => rfl
  | cons call front ih =>
    change placeAll cwd defs _ (i + 1) (front ++ rest) = _
    rw [ih, Nat.add_assoc, Nat.add_comm 1]
    rfl

theorem current_place
    (h : safety defs call = .readOnly ∨ (scopeOf cwd defs call).isSome) :
    ∃ front, (place cwd defs b i call).current = front ++ [i] := by
  unfold Dispatch.place
  obtain hread | hscope := h
  · rw [hread]
    exact ⟨b.current, rfl⟩
  · obtain ⟨p, hp⟩ := Option.isSome_iff_exists.mp hscope
    obtain ⟨hsafety, hpath⟩ := scopeOf_eq_some.mp hp
    rw [hsafety, hpath]
    exact ⟨_, rfl⟩

theorem current_place_or
    (h : safety defs call = .readOnly ∨ (scopeOf cwd defs call).isSome) :
    (place cwd defs b i call).current = b.current ++ [i] ∨
      (∃ q, q ∈ b.currentPaths) ∧ (scopeOf cwd defs call).isSome := by
  unfold Dispatch.place
  obtain hread | hscope := h
  · rw [hread]
    exact .inl rfl
  · obtain ⟨p, hp⟩ := Option.isSome_iff_exists.mp hscope
    obtain ⟨hsafety, hpath⟩ := scopeOf_eq_some.mp hp
    rw [hsafety, hpath]
    dsimp only
    split_ifs with hconflict
    · obtain ⟨q, hq, -⟩ := List.any_eq_true.mp hconflict
      exact .inr ⟨⟨q, hq⟩, hscope⟩
    · exact .inl rfl

theorem Mixed.reads_or_scoped {a b : ToolCall} (h : Mixed cwd defs a b) :
    (safety defs a = .readOnly ∨ (scopeOf cwd defs a).isSome) ∧
      (safety defs b = .readOnly ∨ (scopeOf cwd defs b).isSome) :=
  h.elim (fun h => ⟨.inl h.1, .inr h.2⟩) fun h => ⟨.inr h.1, .inl h.2⟩

theorem exists_mixed_of_place
    (hgood : Good cwd defs calls i b) {x y : ToolCall} (hx : calls[i]? = some x)
    (hy : calls[i + 1]? = some y) (hmixed : Mixed cwd defs x y) :
    ∃ group ∈ (place cwd defs (place cwd defs b i x) (i + 1) y).finish,
      ¬ (members calls group).IsChain fun a b => ¬ Mixed cwd defs a b := by
  obtain ⟨hxshared, hyshared⟩ := hmixed.reads_or_scoped
  have hsafe : safety defs x ≠ .exclusive := by
    intro hsafety
    obtain hread | hscope := hxshared
    · cases hsafety.symm.trans hread
    · obtain ⟨p, hp⟩ := Option.isSome_iff_exists.mp hscope
      cases hsafety.symm.trans (scopeOf_eq_some.mp hp).1
  have hgood₁ := hgood.place hx hsafe
  obtain ⟨front, hfront⟩ := current_place (b := b) (i := i) hxshared
  have hmembers : members calls (place cwd defs b i x).current = members calls front ++ [x] := by
    rw [hfront, members_append hx]
  obtain hjoin | ⟨⟨q, hq⟩, hscope⟩ := current_place_or (b := place cwd defs b i x) (i := i + 1)
    hyshared
  · -- the second call joins the group that the first one has just joined
    refine ⟨_, Buckets.mem_finish.mpr (.inr ⟨rfl, ?_⟩), ?_⟩
    · rw [hjoin]
      exact List.append_ne_nil_of_right_ne_nil _ (List.cons_ne_nil _ _)
    · rw [hjoin, members_append hy, hmembers, List.append_assoc]
      intro hchain
      exact List.isChain_iff_forall_rel_of_append_cons_cons.mp hchain rfl hmixed
  · -- the scope overlaps that of an earlier call, so the first call has joined a call with a scope
    have hread : safety defs x = .readOnly := hmixed.elim (·.1) fun h => by
      rw [scopeOf_of_readOnly h.2] at hscope
      cases hscope
    obtain ⟨group, hgroup, hgrown⟩ := @grows_place cwd defs
      (place cwd defs b i x) (i + 1) y (place cwd defs b i x).current
      (Buckets.mem_finish.mpr (.inr ⟨rfl, by
        rw [hfront]
        exact List.append_ne_nil_of_right_ne_nil _ (List.cons_ne_nil _ _)⟩))
    refine ⟨group, hgroup, fun hchain => ?_⟩
    rw [hgood₁.paths] at hq
    obtain ⟨c, hc, hq⟩ := List.mem_filterMap.mp hq
    have hfirst := hchain.prefix (hgrown.filterMap fun i => calls[i]?)
    refine hgood₁.shared.not_mixed hfirst hc ?_
      (.inr ⟨by rw [hq]; rfl, hread⟩)
    rw [hmembers]
    exact List.mem_append_right _ List.mem_cons_self

theorem length_le_one_of_exclusive (hcall : call ∈ calls) (hsafety : safety defs call = .exclusive)
    (hgroup : group ∈ (planBatch cwd defs calls).groups) : group.length ≤ 1 := by
  unfold planBatch at hgroup
  split_ifs at hgroup with hempty hone hexclusive
  · exact absurd hgroup List.not_mem_nil
  · obtain rfl := List.mem_singleton.mp hgroup
    exact Nat.le_refl 1
  · obtain ⟨i, -, rfl⟩ := List.mem_map.mp hgroup
    exact Nat.le_refl 1
  · exact absurd (List.any_eq_true.mpr ⟨call, hcall, decide_eq_true hsafety⟩) hexclusive

theorem not_mixed_of_group
    (h : (∃ call ∈ calls, safety defs call = .exclusive) ∨
      calls.IsChain fun a b => ¬ Mixed cwd defs a b) (hgroup : group ∈
      (planBatch cwd defs calls).groups) {a b : ToolCall}
    (ha : a ∈ members calls group) (hb : b ∈ members calls group) : ¬ Mixed cwd defs a b := by
  have hone : (members calls group).length ≤ 1 → ¬ Mixed cwd defs a b := by
    intro hlength
    obtain rfl : a = b := by
      match hmembers : members calls group, hlength with
      | [], _ => rw [hmembers] at ha; exact absurd ha List.not_mem_nil
      | [c], _ =>
        rw [hmembers] at ha hb
        exact (List.mem_singleton.mp ha).trans (List.mem_singleton.mp hb).symm
    exact not_mixed_self a
  obtain ⟨call, hcall, hsafety⟩ | hchain := h
  · exact hone (Nat.le_trans (List.length_filterMap_le _ _)
      (length_le_one_of_exclusive hcall hsafety hgroup))
  · obtain hlength | hshared := shape_of_planBatch hgroup
    · exact hone hlength
    · have hpart := hchain.infix (members_together hgroup)
      exact hshared.not_mixed hpart ha hb

theorem planBatch_of_loop (hlength : 1 < calls.length)
    (hsafe : ∀ call ∈ calls, safety defs call ≠ .exclusive) :
    (planBatch cwd defs calls).groups = (placeAll cwd defs ⟨[], [], []⟩ 0 calls).finish := by
  have hempty : ¬ calls.isEmpty := fun h => by
    rw [List.isEmpty_iff.mp h] at hlength
    exact absurd hlength (by decide)
  have hexclusive : ¬ calls.any (safety defs · = .exclusive) := fun h => by
    obtain ⟨call, hcall, hsafety⟩ := List.any_eq_true.mp h
    exact hsafe call hcall (of_decide_eq_true hsafety)
  unfold planBatch
  rw [if_neg hempty, if_neg (Nat.ne_of_gt hlength), if_neg hexclusive]
  rfl

/-- **Neighbours of which one reads and one has a scope put such neighbours into one group.** -/
theorem exists_mixed_group
    (hsafe : ∀ call ∈ calls, safety defs call ≠ .exclusive)
    (hmixed : ¬ calls.IsChain fun a b => ¬ Mixed cwd defs a b) :
    ∃ group ∈ (planBatch cwd defs calls).groups,
      ¬ (members calls group).IsChain fun a b => ¬ Mixed cwd defs a b := by
  rw [List.isChain_iff_forall_rel_of_append_cons_cons] at hmixed
  push Not at hmixed
  obtain ⟨x, y, front, rest, rfl, hxy⟩ := hmixed
  have hlength : 1 < (front ++ x :: y :: rest).length := by
    rw [List.length_append, List.length_cons, List.length_cons]
    omega
  have hgood := @good_placeAll cwd _ _ _ (List.prefix_append front (x :: y :: rest)) hsafe
  have hx : (front ++ x :: y :: rest)[front.length]? = some x := by
    rw [List.getElem?_append_right (Nat.le_refl _), Nat.sub_self]
    rfl
  have hy : (front ++ x :: y :: rest)[front.length + 1]? = some y := by
    rw [List.getElem?_append_right (Nat.le_add_right _ 1), Nat.add_sub_cancel_left]
    rfl
  obtain ⟨group, hgroup, hchain⟩ := exists_mixed_of_place hgood hx hy hxy
  obtain ⟨group', hgroup', hgrown⟩ := @grows_placeAll cwd defs _
    (front.length + 1 + 1) rest group hgroup
  refine ⟨group', ?_, fun h => hchain ?_⟩
  swap
  · exact h.prefix (hgrown.filterMap _)
  rw [planBatch_of_loop hlength hsafe, placeAll_append, Nat.zero_add]
  exact hgroup'

/-- A call that names a file. -/
def onFile (id name path : String) : ToolCall := ⟨id, name, .object [("path", .string path)]⟩

end LibreFang.Dispatch
