import LibreFang.Dispatch.Groups

/-!
# The contract of a plan

What the groups of a plan promise about the scopes that the calls name, whatever the planner makes
of these names.

* `rawScope`: the file or the skill that a call names; `resolve`: where a file is, by its names from
  the root; `Contend`: two scopes that are equal or one in the other.
* **`planContract_iff`**: the contract holds exactly when the steps are so.
-/

namespace LibreFang.Dispatch

open Paths

/-! ## Scopes by their names -/

/-- The scope that a call names. -/
inductive RawScope
  | file (path : String)
  | skill (name : String)
  deriving DecidableEq, Repr

/-- The scope that the input of a tool names. -/
def rawScope (call : ToolCall) : Option RawScope :=
  if call.name ∈ ["file_write", "file_edit", "apply_patch"] then
    ((call.input.get "path").bind Value.asStr).bind fun raw =>
      if raw = "" then none else some (.file raw)
  else if isSkillEvolve call.name then
    ((call.input.get "name").bind Value.asStr).map .skill
  else none

/-- One more component of a path, from the names before it. -/
def descend (names : List String) : Component → List String
  | .rootDir => []
  | .curDir => names
  | .parentDir => names.dropLast
  | .normal name => names ++ [name]

/-- The names from the root to a path in a working directory; above the root is the root. -/
def resolve (cwd : Path) (raw : String) : List String :=
  (cwd.components ++ (Path.ofString raw).components).foldl descend []

/-- Two scopes are equal, or one of them lies in the other. -/
def Contend (cwd : Path) : RawScope → RawScope → Prop
  | .file a, .file b => resolve cwd a <+: resolve cwd b ∨ resolve cwd b <+: resolve cwd a
  | .skill a, .skill b => a = b
  | _, _ => False

instance (cwd : Path) (a b : RawScope) : Decidable (Contend cwd a b) :=
  match a, b with
  | .file a, .file b =>
    inferInstanceAs (Decidable (resolve cwd a <+: resolve cwd b ∨ resolve cwd b <+: resolve cwd a))
  | .skill a, .skill b => inferInstanceAs (Decidable (a = b))
  | .file _, .skill _ | .skill _, .file _ => inferInstanceAs (Decidable False)

/-- A path that has only slashes. -/
def RawScope.onlySlashes : RawScope → Bool
  | .file path => path != "" && path.toList.all (· == '/')
  | .skill _ => false

/-- What the planner makes of a scope. -/
def RawScope.normalize (cwd : Option Path) : RawScope → NormalizedPath
  | .file path => normalizePath cwd path
  | .skill name => .virtual ("skill::" ++ name)

theorem extractScopePath_eq (cwd : Option Path) (call : ToolCall) :
    extractScopePath cwd call.name call.input = (rawScope call).map (RawScope.normalize cwd) := by
  unfold extractScopePath rawScope
  split_ifs with hfile hskill
  · rw [Option.map_bind]
    congr 1
    funext raw
    rw [Function.comp_apply, apply_ite (Option.map _)]
    rfl
  · rw [Option.map_map]
    rfl
  · rfl

/-! ## Where the planner finds a file -/

section Normalize

variable {cwd : Path}

theorem parent_of_isNames {p : Path} {names : List String} (h : IsNames p names) :
    p.parent = if names = [] then none else some ⟨p.components.dropLast, false⟩ := by
  unfold IsNames at h
  unfold Path.parent
  rw [h]
  induction names using List.reverseRecOn with
  | nil => rfl
  | append_singleton names name _ =>
    have hlast : (Component.rootDir :: (names ++ [name]).map .normal).getLast? =
        some (.normal name) := by
      rw [List.map_append, List.map_singleton, ← List.cons_append, List.getLast?_concat]
    rw [hlast, if_neg (List.append_ne_nil_of_right_ne_nil _ (List.cons_ne_nil _ _))]

theorem cleanComponent_names {out : Path} {names : List String} (h : IsNames out names)
    (comp : Component) :
    IsNames (cleanComponent (out, true) comp).1 (descend names comp) ∧
      (cleanComponent (out, true) comp).2 = true := by
  have hroot : ∀ p : Path, p.join (Path.ofString "/") = Path.ofString "/" := fun p =>
    if_pos (.inl rfl)
  unfold cleanComponent
  cases comp with
  | rootDir =>
    refine ⟨?_, rfl⟩
    simp only [hroot]
    rfl
  | curDir => exact ⟨h, rfl⟩
  | parentDir =>
    simp only [parent_of_isNames h]
    by_cases hnames : names = []
    · subst hnames
      exact ⟨rfl, rfl⟩
    · have hdrop : out.components.dropLast = .rootDir :: names.dropLast.map .normal := by
        unfold IsNames at h
        rw [h, List.dropLast_cons_of_ne_nil (mt List.map_eq_nil_iff.mp hnames), List.map_dropLast]
      simp only [hnames, if_false, Option.getD_some, hdrop]
      refine ⟨?_, ?_⟩ <;> simp [IsNames, descend]
  | normal name =>
    refine ⟨?_, rfl⟩
    have hrel : (⟨[.normal name], false⟩ : Path).isAbsolute = false := rfl
    unfold IsNames at h
    unfold Path.join
    simp only [hrel, h]
    simp [IsNames, descend]

theorem foldl_cleanComponent {out : Path} {names : List String} (h : IsNames out names)
    (comps : List Component) :
    IsNames (comps.foldl cleanComponent (out, true)).1 (comps.foldl descend names) ∧
      (comps.foldl cleanComponent (out, true)).2 = true := by
  induction comps generalizing out names with
  | nil => exact ⟨h, rfl⟩
  | cons comp comps ih =>
    obtain ⟨hnames, htrue⟩ := cleanComponent_names h comp
    have hpair : cleanComponent (out, true) comp = ((cleanComponent (out, true) comp).1, true) :=
      Prod.ext rfl htrue
    rw [List.foldl_cons, List.foldl_cons, hpair]
    exact ih hnames

theorem isNames_lexicalClean {p : Path} (h : p.isAbsolute = true) :
    IsNames (lexicalClean p) (p.components.foldl descend []) := by
  obtain ⟨comps, hcomps⟩ : ∃ comps, p.components = .rootDir :: comps := by
    unfold Path.isAbsolute at h
    exact List.head?_eq_some_iff.mp (eq_of_beq h)
  have hstart : cleanComponent (⟨[], false⟩, false) .rootDir = (Path.ofString "/", true) := rfl
  have hfold := (@foldl_cleanComponent (Path.ofString "/") [] rfl comps).1
  unfold lexicalClean
  rw [hcomps, List.foldl_cons, List.foldl_cons, hstart]
  simp only
  rw [if_neg]
  · exact hfold
  · unfold IsNames at hfold
    rw [hfold]
    exact List.cons_ne_nil _ _

theorem foldl_descend_filter (comps : List Component) (names : List String) :
    (comps.filter (· ≠ .curDir)).foldl descend names = comps.foldl descend names := by
  induction comps generalizing names with
  | nil => rfl
  | cons comp comps ih =>
    rw [List.filter_cons, List.foldl_cons]
    split_ifs with hcomp
    · exact ih _
    · obtain rfl : comp = .curDir := by simpa using hcomp
      exact ih names

theorem descend_of_isAbsolute {p : Path} (h : p.isAbsolute = true) (names : List String) :
    p.components.foldl descend names = p.components.foldl descend [] := by
  obtain ⟨comps, hcomps⟩ := List.head?_eq_some_iff.mp (eq_of_beq h)
  rw [hcomps]
  rfl

theorem isNames_expanded (hcwd : cwd.isAbsolute = true) (p : Path) :
    IsNames (lexicalClean (if p.isAbsolute then p else cwd.join p))
      ((cwd.components ++ p.components).foldl descend []) := by
  rw [List.foldl_append]
  by_cases hp : p.isAbsolute = true
  · rw [if_pos hp, descend_of_isAbsolute hp]
    exact isNames_lexicalClean hp
  · have hne : cwd.components ≠ [] := by
      intro hnil
      unfold Path.isAbsolute at hcwd
      rw [hnil] at hcwd
      cases hcwd
    have hjoin : (cwd.join p).components =
        cwd.components ++ p.components.filter (· ≠ .curDir) := by
      unfold Path.join
      rw [if_neg (not_or.mpr ⟨hp, hne⟩)]
    have habs : (cwd.join p).isAbsolute = true := by
      unfold Path.isAbsolute at hcwd ⊢
      rw [hjoin, List.head?_append, eq_of_beq hcwd]
      rfl
    have hclean := isNames_lexicalClean habs
    rw [hjoin, List.foldl_append, foldl_descend_filter] at hclean
    rw [if_neg hp]
    exact hclean

/-- **The planner knows where a file is**, unless its path has only slashes. -/
theorem normalizePath_eq (hcwd : cwd.isAbsolute = true) {path : String}
    (h : (RawScope.file path).onlySlashes = false) :
    ∃ p, normalizePath (some cwd) path = .real p ∧ IsNames p (resolve cwd path) := by
  have hcomponents :
      (Path.ofString (String.ofList (path.toList.rdropWhile (· == '/')))).components =
      (Path.ofString path).components := by
    by_cases hempty : path = ""
    · rw [hempty]
      rfl
    · have hne : path.toList.rdropWhile (· == '/') ≠ [] := by
        intro hnil
        refine Bool.eq_false_iff.mp h ?_
        rw [RawScope.onlySlashes, Bool.and_eq_true, bne_iff_ne]
        exact ⟨hempty, List.all_eq_true.mpr (List.rdropWhile_eq_nil_iff.mp hnil)⟩
      rw [Path.components_ofString_rdropWhile hne, String.ofList_toList]
  refine ⟨_, rfl, ?_⟩
  have hexpanded := isNames_expanded hcwd
    (Path.ofString (String.ofList (path.toList.rdropWhile (· == '/'))))
  rw [hcomponents] at hexpanded
  exact hexpanded

theorem components_of_slashes {s : List Char} (hne : s ≠ []) (h : ∀ c ∈ s, (c == '/') = true) :
    (Path.ofString (String.ofList s)).components = [.rootDir] := by
  induction s using List.reverseRecOn with
  | nil => exact absurd rfl hne
  | append_singleton s c ih =>
    obtain rfl := eq_of_beq (h c (List.mem_append_right s List.mem_cons_self))
    by_cases hs : s = []
    · subst hs
      rfl
    · rw [Path.components_ofString_slash hs]
      exact ih hs fun d hd => h d (List.mem_append_left _ hd)

theorem resolve_of_onlySlashes {path : String} (h : (RawScope.file path).onlySlashes = true) :
    resolve cwd path = [] := by
  rw [RawScope.onlySlashes, Bool.and_eq_true, bne_iff_ne, List.all_eq_true] at h
  have hne : path.toList ≠ [] := fun hnil => h.1 (String.toList_eq_nil_iff.mp hnil)
  have hcomponents := components_of_slashes hne h.2
  rw [String.ofList_toList] at hcomponents
  unfold resolve
  rw [hcomponents, List.foldl_append]
  rfl

theorem contend_of_onlySlashes {path path' : String}
    (h : (RawScope.file path).onlySlashes = true ∨ (RawScope.file path').onlySlashes = true) :
    Contend cwd (.file path) (.file path') := by
  rcases h with h | h
  · exact .inl (by rw [resolve_of_onlySlashes h]; exact List.nil_prefix)
  · exact .inr (by rw [resolve_of_onlySlashes h]; exact List.nil_prefix)

theorem startsWith_iff {p q : Path} {names names' : List String} (hp : IsNames p names)
    (hq : IsNames q names') : p.startsWith q = true ↔ names' <+: names := by
  have hinj : Function.Injective Component.normal := fun _ _ h => Component.normal.inj h
  unfold IsNames at hp hq
  unfold Path.startsWith
  rw [List.isPrefixOf_iff_prefix, hp, hq, List.cons_prefix_cons, and_iff_right rfl,
    List.prefix_map_iff_of_injective hinj]

theorem contend_iff (hcwd : cwd.isAbsolute = true) {a b : RawScope}
    (ha : a.onlySlashes = false) (hb : b.onlySlashes = false) :
    Contend cwd a b ↔ pathsOverlap (a.normalize (some cwd)) (b.normalize (some cwd)) = true := by
  cases a with
  | file path =>
    cases b with
    | file path' =>
      obtain ⟨p, hp, hnames⟩ := normalizePath_eq hcwd ha
      obtain ⟨q, hq, hnames'⟩ := normalizePath_eq hcwd hb
      rw [RawScope.normalize, RawScope.normalize, hp, hq, pathsOverlap, Bool.or_eq_true,
        startsWith_iff hnames hnames', startsWith_iff hnames' hnames, or_comm]
      exact Iff.rfl
    | skill name => exact iff_of_false id Bool.false_ne_true
  | skill name =>
    cases b with
    | file path => exact iff_of_false id Bool.false_ne_true
    | skill name' =>
      show name = name' ↔ ("skill::" ++ name == "skill::" ++ name') = true
      rw [beq_iff_eq, String.append_right_inj]

end Normalize

/-! ## Relations between the calls of a group -/

section Loop

variable (cwd : Option Path) (defs : List ToolDefinition) (calls : List ToolCall)

/-- The scope that a call names if it writes no more than its scope. -/
def rawOf (call : ToolCall) : Option RawScope :=
  if safety defs call = .writeScoped then rawScope call else none

/-- The scopes that the calls of a group name. -/
def raws (group : List ℕ) : List RawScope := (members calls group).filterMap (rawOf defs)

variable (R : RawScope → RawScope → Prop)

/-- A relation holds between the scopes of every group, as far as the loop has come. -/
def GroupsHold (b : Buckets) : Prop :=
  (∀ group ∈ b.groups, (raws defs calls group).Pairwise R) ∧ (raws defs calls b.current).Pairwise R

/-- A relation holds between the scopes of the open group and that of a call that joins it. -/
def JoinHolds (b : Buckets) (call : ToolCall) : Prop :=
  ∀ raw, rawOf defs call = some raw →
    b.currentPaths.any (pathsOverlap (raw.normalize cwd)) = false →
      ∀ raw' ∈ raws defs calls b.current, R raw' raw

variable {cwd defs calls R}

theorem scopeOf_eq (call : ToolCall) :
    scopeOf cwd defs call = (rawOf defs call).map (RawScope.normalize cwd) := by
  unfold scopeOf rawOf
  split_ifs
  · exact extractScopePath_eq cwd call
  · rfl

theorem filterMap_scopeOf (group : List ℕ) :
    (members calls group).filterMap (scopeOf cwd defs) =
      (raws defs calls group).map (RawScope.normalize cwd) := by
  unfold raws
  rw [List.map_filterMap]
  exact List.filterMap_congr fun call _ => scopeOf_eq call

variable {call : ToolCall}

theorem rawOf_of_ne (h : safety defs call ≠ .writeScoped) :
    rawOf defs call = none := if_neg h

variable {i : ℕ}

theorem raws_append (hcall : calls[i]? = some call) (group : List ℕ) :
    raws defs calls (group ++ [i]) = raws defs calls group ++ (rawOf defs call).toList := by
  unfold raws
  rw [members_append hcall, List.filterMap_append]
  cases h : rawOf defs call with
  | none => rw [List.filterMap_cons_none h]; rfl
  | some raw => rw [List.filterMap_cons_some h]; rfl

theorem groupsHold_flush (b : Buckets) :
    GroupsHold defs calls R b.flush ↔ GroupsHold defs calls R b := by
  have hnil : (raws defs calls b.flush.current).Pairwise R := List.Pairwise.nil
  unfold GroupsHold
  rw [and_iff_left hnil, Buckets.flush]
  simp only [List.forall_mem_append, List.forall_mem_singleton]

theorem groupsHold_flush_unless_empty (b : Buckets) :
    GroupsHold defs calls R (if b.current.isEmpty then b else b.flush) ↔
      GroupsHold defs calls R b := by
  split_ifs
  · exact Iff.rfl
  · exact groupsHold_flush b

variable {b : Buckets}

theorem groupsHold_alone (hcall : calls[i]? = some call) :
    GroupsHold defs calls R { b with groups := b.groups ++ [[i]] } ↔ GroupsHold defs calls R b := by
  have hone : (raws defs calls [i]).Pairwise R := by
    have hraws := @raws_append defs _ _ _ hcall []
    rw [List.nil_append] at hraws
    rw [hraws]
    cases rawOf defs call with
    | none => exact .nil
    | some raw => exact List.pairwise_singleton R raw
  unfold GroupsHold
  simp only [List.forall_mem_append, List.forall_mem_singleton, and_iff_left hone]

theorem groupsHold_join (hcall : calls[i]? = some call) (paths : List NormalizedPath) :
    GroupsHold defs calls R { b with current := b.current ++ [i], currentPaths := paths } ↔
      GroupsHold defs calls R b ∧
        ∀ raw, rawOf defs call = some raw → ∀ raw' ∈ raws defs calls b.current, R raw' raw := by
  unfold GroupsHold
  simp only
  rw [raws_append hcall, List.pairwise_append, and_assoc]
  refine and_congr_right fun _ => and_congr_right fun _ => ?_
  cases rawOf defs call with
  | none => simp
  | some raw => simp

theorem groupsHold_place (b : Buckets) (hcall : calls[i]? = some call) :
    GroupsHold defs calls R (place cwd defs b i call) ↔
      GroupsHold defs calls R b ∧ JoinHolds cwd defs calls R b call := by
  have hvacuous (hnone : rawOf defs call = none) : JoinHolds cwd defs calls R b call := by
    intro raw hraw
    rw [hnone] at hraw
    cases hraw
  unfold place
  cases hsafety : safety defs call with
  | exclusive => exact (and_iff_left (hvacuous (rawOf_of_ne (by rw [hsafety]; decide)))).symm
  | writeShared =>
    rw [and_iff_left (hvacuous (rawOf_of_ne (by rw [hsafety]; decide)))]
    exact (groupsHold_alone hcall).trans (groupsHold_flush_unless_empty b)
  | readOnly =>
    have hnone : rawOf defs call = none := rawOf_of_ne (by rw [hsafety]; decide)
    refine (groupsHold_join hcall b.currentPaths).trans (and_congr_right fun _ => ?_)
    refine iff_of_true (fun raw hraw => ?_) (hvacuous hnone)
    rw [hnone] at hraw
    cases hraw
  | writeScoped =>
    have hraw : rawOf defs call = rawScope call := if_pos hsafety
    have hscope := extractScopePath_eq cwd call
    cases hrawScope : rawScope call with
    | none =>
      rw [hrawScope, Option.map_none] at hscope
      rw [hrawScope] at hraw
      rw [hscope, and_iff_left (hvacuous hraw)]
      simp only
      refine (groupsHold_flush _).trans ((groupsHold_join hcall _).trans ?_)
      rw [groupsHold_flush_unless_empty, and_iff_left]
      intro raw h
      rw [hraw] at h
      cases h
    | some raw =>
      rw [hrawScope, Option.map_some] at hscope
      rw [hrawScope] at hraw
      rw [hscope]
      simp only
      by_cases hconflict : b.currentPaths.any (pathsOverlap (raw.normalize cwd)) = true
      · rw [if_pos hconflict, and_iff_left]
        · refine (groupsHold_join hcall _).trans ?_
          rw [groupsHold_flush, and_iff_left]
          exact fun _ _ raw' hraw' => absurd hraw' List.not_mem_nil
        · intro raw' hraw' hfree
          obtain rfl := Option.some.inj (hraw.symm.trans hraw')
          rw [hconflict] at hfree
          cases hfree
      · rw [if_neg hconflict]
        refine (groupsHold_join hcall _).trans (and_congr_right fun _ => ?_)
        refine forall₂_congr fun raw' hraw' => ?_
        obtain rfl := Option.some.inj (hraw.symm.trans hraw')
        exact (imp_iff_right (Bool.eq_false_iff.mpr hconflict)).symm

theorem groupsHold_placeAll {n : ℕ} (hn : n ≤ calls.length) :
    GroupsHold defs calls R (placeAll cwd defs ⟨[], [], []⟩ 0 (calls.take n)) ↔
      ∀ k < n, ∀ call, calls[k]? = some call →
        JoinHolds cwd defs calls R (placeAll cwd defs ⟨[], [], []⟩ 0 (calls.take k)) call := by
  induction n with
  | zero =>
    refine iff_of_true ⟨?_, List.Pairwise.nil⟩ fun k hk => absurd hk (Nat.not_lt_zero k)
    exact fun _ h => absurd h List.not_mem_nil
  | succ n ih =>
    have hcall : calls[n]? = some calls[n] := List.getElem?_eq_getElem hn
    have hlength : (calls.take n).length = n := List.length_take_of_le (Nat.le_of_lt hn)
    rw [List.take_add_one, hcall, Option.toList_some, placeAll_append, hlength, Nat.zero_add]
    refine (groupsHold_place _ hcall).trans ?_
    rw [ih (Nat.le_of_lt hn)]
    constructor
    · rintro ⟨hbefore, hlast⟩ k hk call hk'
      rcases Nat.lt_succ_iff_lt_or_eq.mp hk with hlt | rfl
      · exact hbefore k hlt call hk'
      · obtain rfl := Option.some.inj (hcall.symm.trans hk')
        exact hlast
    · exact fun h => ⟨fun k hk => h k (Nat.lt_succ_of_lt hk), h n (Nat.lt_succ_self n) _ hcall⟩

end Loop

/-! ## The contract -/

section Contract

variable (cwd : Path) (defs : List ToolDefinition) (calls : List ToolCall)

/-- **The contract of a plan** in a working directory: the groups in order are all calls in order
and none is empty; a call that writes what is shared, or that names no scope, is alone; with an
exclusive call all are; and no two scopes of a group contend. -/
structure PlanContract : Prop where
  order : (planBatch (some cwd) defs calls).groups.flatten = List.range calls.length
  nonempty : ∀ group ∈ (planBatch (some cwd) defs calls).groups, group ≠ []
  alone : ∀ group ∈ (planBatch (some cwd) defs calls).groups, ∀ i ∈ group, ∀ call,
    calls[i]? = some call → (safety defs call = .writeShared ∨
      safety defs call = .writeScoped ∧ rawScope call = none) → group = [i]
  exclusive : (∃ call ∈ calls, safety defs call = .exclusive) →
    ∀ group ∈ (planBatch (some cwd) defs calls).groups, group.length = 1
  apart : ∀ group ∈ (planBatch (some cwd) defs calls).groups,
    (raws defs calls group).Pairwise fun a b => ¬ Contend cwd a b

/-- Before each call: when a file joins the open group and does not overlap what the group has, then
neither its path nor that of a file in the group has only slashes. -/
def SlashesApart : Prop :=
  ∀ k call, calls[k]? = some call → ∀ path, rawOf defs call = some (.file path) →
    let b := placeAll (some cwd) defs ⟨[], [], []⟩ 0 (calls.take k)
    b.currentPaths.any (pathsOverlap (normalizePath (some cwd) path)) = false →
      ∀ path', .file path' ∈ raws defs calls b.current →
        (RawScope.file path').onlySlashes = false ∧ (RawScope.file path).onlySlashes = false

variable {cwd defs calls}

theorem nonempty_place {cwd : Option Path} (hgood : Good cwd defs calls i b)
    (h : ∀ group ∈ b.groups, group ≠ []) (call : ToolCall) :
    ∀ group ∈ (place cwd defs b i call).groups, group ≠ [] := by
  have hflush (hcurrent : b.current ≠ []) : ∀ group ∈ b.flush.groups, group ≠ [] := by
    rw [Buckets.flush, List.forall_mem_append, List.forall_mem_singleton]
    exact ⟨h, hcurrent⟩
  have hflushed : ∀ group ∈ (if b.current.isEmpty then b else b.flush).groups, group ≠ [] := by
    split_ifs with hempty
    · exact h
    · exact hflush (mt List.isEmpty_iff.mpr hempty)
  unfold place
  cases safety defs call with
  | exclusive => exact h
  | readOnly => exact h
  | writeShared =>
    simp only [List.forall_mem_append, List.forall_mem_singleton]
    exact ⟨hflushed, List.cons_ne_nil _ _⟩
  | writeScoped =>
    cases extractScopePath cwd call.name call.input with
    | none =>
      simp only [Buckets.flush, List.forall_mem_append, List.forall_mem_singleton]
      exact ⟨hflushed, List.append_ne_nil_of_right_ne_nil _ (List.cons_ne_nil _ _)⟩
    | some p =>
      simp only
      split_ifs with hconflict
      · refine hflush fun hempty => ?_
        rw [hgood.paths_of_empty hempty] at hconflict
        cases hconflict
      · exact h

theorem nonempty_planBatch {cwd : Option Path} :
    ∀ group ∈ (planBatch cwd defs calls).groups, group ≠ [] := by
  by_cases hexclusive : ∃ call ∈ calls, safety defs call = .exclusive
  · obtain ⟨call, hcall, hsafety⟩ := hexclusive
    unfold planBatch
    split_ifs with _ _ hany
    · exact fun _ h => absurd h List.not_mem_nil
    · exact fun group h => by rw [List.mem_singleton.mp h]; exact List.cons_ne_nil _ _
    · intro group h
      obtain ⟨i, -, rfl⟩ := List.mem_map.mp h
      exact List.cons_ne_nil _ _
    · exact absurd (List.any_eq_true.mpr ⟨call, hcall, decide_eq_true hsafety⟩) hany
  · have hsafe : ∀ call ∈ calls, safety defs call ≠ .exclusive := fun call hcall hsafety =>
      hexclusive ⟨call, hcall, hsafety⟩
    have hrun : ∀ n ≤ calls.length, ∀ group ∈
        (placeAll cwd defs ⟨[], [], []⟩ 0 (calls.take n)).groups, group ≠ [] := by
      intro n hn
      induction n with
      | zero => exact fun _ h => absurd h List.not_mem_nil
      | succ n ih =>
        have hlength : (calls.take n).length = n := List.length_take_of_le (Nat.le_of_lt hn)
        have hgood := @good_placeAll cwd defs calls _ (List.take_prefix n calls) hsafe
        rw [hlength] at hgood
        rw [List.take_add_one, List.getElem?_eq_getElem hn, Option.toList_some, placeAll_append,
          hlength, Nat.zero_add]
        exact nonempty_place hgood (ih (Nat.le_of_lt hn)) _
    by_cases hlength : 1 < calls.length
    · rw [planBatch_of_loop hlength hsafe]
      intro group hgroup
      have hall := hrun calls.length le_rfl
      rw [List.take_length] at hall
      rcases Buckets.mem_finish.mp hgroup with hmem | ⟨rfl, hne⟩
      · exact hall group hmem
      · exact hne
    · unfold planBatch
      split_ifs with hempty hone
      · exact fun _ h => absurd h List.not_mem_nil
      · exact fun group h => by rw [List.mem_singleton.mp h]; exact List.cons_ne_nil _ _
      · exfalso
        rw [List.isEmpty_iff] at hempty
        have := List.length_pos_iff.mpr hempty
        omega
      · exfalso
        rw [List.isEmpty_iff] at hempty
        have := List.length_pos_iff.mpr hempty
        omega

theorem eq_singleton_of_length {group : List ℕ} (hlength : group.length ≤ 1)
    (hi : i ∈ group) : group = [i] := by
  obtain ⟨j, rfl⟩ := List.length_eq_one_iff.mp
    (le_antisymm hlength (List.length_pos_of_mem hi))
  rw [List.mem_singleton.mp hi]

theorem planBatch_alone {cwd : Option Path} {group : List ℕ}
    (hgroup : group ∈ (planBatch cwd defs calls).groups) (hi : i ∈ group)
    (hcall : calls[i]? = some call)
    (h : safety defs call = .writeShared ∨ safety defs call = .writeScoped ∧ rawScope call = none) :
    group = [i] := by
  refine eq_singleton_of_length (((planBatch_groups calls).2 group hgroup).resolve_right ?_) hi
  intro hshared
  have hmem : call ∈ members calls group := List.mem_filterMap.mpr ⟨i, hi, hcall⟩
  rcases hshared.reads_or_scoped call hmem with hread | hscope
  · rcases h with h | h
    · cases hread.symm.trans h
    · cases hread.symm.trans h.1
  · rw [scopeOf_eq, Option.isSome_map] at hscope
    rcases h with h | h
    · rw [rawOf_of_ne (by rw [h]; decide)] at hscope
      cases hscope
    · rw [rawOf, if_pos h.1, h.2] at hscope
      cases hscope

theorem pairwise_raws_of_length {R : RawScope → RawScope → Prop} {group : List ℕ}
    (h : group.length ≤ 1) : (raws defs calls group).Pairwise R := by
  have hlength : (raws defs calls group).length ≤ 1 :=
    (List.length_filterMap_le _ _).trans ((List.length_filterMap_le _ _).trans h)
  cases hraws : raws defs calls group with
  | nil => exact .nil
  | cons raw rest =>
    rw [hraws, List.length_cons] at hlength
    obtain rfl : rest = [] := List.length_eq_zero_iff.mp (by omega)
    exact List.pairwise_singleton R raw

theorem joinHolds_iff (hcwd : cwd.isAbsolute = true)
    (hgood : Good (some cwd) defs calls i b) (call : ToolCall) :
    JoinHolds (some cwd) defs calls (fun a b => ¬ Contend cwd a b) b call ↔
      ∀ path, rawOf defs call = some (.file path) →
        b.currentPaths.any (pathsOverlap (normalizePath (some cwd) path)) = false →
          ∀ path', .file path' ∈ raws defs calls b.current →
            (RawScope.file path').onlySlashes = false ∧
              (RawScope.file path).onlySlashes = false := by
  constructor
  · intro h path hpath hfree path' hpath'
    have hapart := h _ hpath hfree _ hpath'
    refine ⟨Bool.eq_false_iff.mpr fun hslash => hapart ?_,
      Bool.eq_false_iff.mpr fun hslash => hapart ?_⟩
    · exact contend_of_onlySlashes (.inl hslash)
    · exact contend_of_onlySlashes (.inr hslash)
  · intro h raw hraw hfree raw' hraw' hcontend
    have hslashes : raw'.onlySlashes = false ∧ raw.onlySlashes = false := by
      cases raw' with
      | skill name' =>
        cases raw with
        | skill name => exact ⟨rfl, rfl⟩
        | file path => exact hcontend.elim
      | file path' =>
        cases raw with
        | skill name => exact hcontend.elim
        | file path => exact h path hraw hfree path' hraw'
    rw [contend_iff hcwd hslashes.1 hslashes.2, pathsOverlap_comm] at hcontend
    refine List.any_eq_false.mp hfree _ ?_ hcontend
    rw [hgood.paths, filterMap_scopeOf]
    exact List.mem_map_of_mem hraw'

theorem apart_iff (hcwd : cwd.isAbsolute = true)
    (hsafe : ∀ call ∈ calls, safety defs call ≠ .exclusive) :
    (∀ group ∈ (planBatch (some cwd) defs calls).groups,
      (raws defs calls group).Pairwise fun a b => ¬ Contend cwd a b) ↔
    SlashesApart cwd defs calls := by
  have hloop : GroupsHold defs calls (fun a b => ¬ Contend cwd a b)
      (placeAll (some cwd) defs ⟨[], [], []⟩ 0 calls) ↔ SlashesApart cwd defs calls := by
    have hrun := @groupsHold_placeAll (some cwd) defs calls (fun a b => ¬ Contend cwd a b) _ le_rfl
    rw [List.take_length] at hrun
    refine hrun.trans ?_
    have hstep (k : ℕ) (call : ToolCall) (hk : k < calls.length) :=
      joinHolds_iff hcwd ((List.length_take_of_le (Nat.le_of_lt hk) ▸
        @good_placeAll (some cwd) defs calls _ (List.take_prefix k calls) hsafe)) call
    constructor
    · intro h k call hcall
      have hk := (List.getElem?_eq_some_iff.mp hcall).1
      exact (hstep k call hk).mp (h k hk call hcall)
    · intro h k hk call hcall
      exact (hstep k call hk).mpr (h k call hcall)
  rw [← hloop]
  by_cases hlength : 1 < calls.length
  · rw [planBatch_of_loop hlength hsafe]
    unfold GroupsHold
    constructor
    · intro h
      refine ⟨fun group hgroup => h group (Buckets.mem_finish.mpr (.inl hgroup)), ?_⟩
      by_cases hempty : (placeAll (some cwd) defs ⟨[], [], []⟩ 0 calls).current = []
      · rw [hempty]
        exact .nil
      · exact h _ (Buckets.mem_finish.mpr (.inr ⟨rfl, hempty⟩))
    · rintro ⟨hclosed, hopen⟩ group hgroup
      rcases Buckets.mem_finish.mp hgroup with hmem | ⟨rfl, -⟩
      · exact hclosed group hmem
      · exact hopen
  · have hshort {group : List ℕ} {groups : List (List ℕ)} (hmem : group ∈ groups)
        (hflatten : groups.flatten.length ≤ calls.length) : group.length ≤ 1 := by
      have := (List.sublist_flatten_of_mem hmem).length_le
      omega
    have hgood := @good_placeAll (some cwd) defs calls _ List.prefix_rfl hsafe
    have horder := congrArg List.length hgood.order
    rw [List.length_append, List.length_range] at horder
    refine iff_of_true (fun group hgroup => ?_) ⟨fun group hgroup => ?_, ?_⟩
    · refine pairwise_raws_of_length (hshort hgroup ?_)
      rw [planBatch_flatten, List.length_range]
    · exact pairwise_raws_of_length (hshort hgroup (by omega))
    · exact pairwise_raws_of_length (by omega)

/-- **The contract of a plan** holds exactly when a call is exclusive or paths of slashes stay apart
from the other files. -/
theorem planContract_iff (hcwd : cwd.isAbsolute = true) :
    PlanContract cwd defs calls ↔
      (∃ call ∈ calls, safety defs call = .exclusive) ∨ SlashesApart cwd defs calls := by
  constructor
  · intro h
    by_cases hexclusive : ∃ call ∈ calls, safety defs call = .exclusive
    · exact .inl hexclusive
    · exact .inr ((apart_iff hcwd fun call hcall hsafety => hexclusive ⟨call, hcall, hsafety⟩).mp
        h.apart)
  · intro h
    refine ⟨planBatch_flatten calls, nonempty_planBatch, ?_, ?_, ?_⟩
    · exact fun group hgroup i hi call hcall halone => planBatch_alone hgroup hi hcall halone
    · rintro ⟨call, hcall, hsafety⟩ group hgroup
      exact le_antisymm (length_le_one_of_exclusive hcall hsafety hgroup)
        (List.length_pos_iff.mpr (nonempty_planBatch group hgroup))
    · by_cases hexclusive : ∃ call ∈ calls, safety defs call = .exclusive
      · obtain ⟨call, hcall, hsafety⟩ := hexclusive
        exact fun group hgroup =>
          pairwise_raws_of_length (length_le_one_of_exclusive hcall hsafety hgroup)
      · exact (apart_iff hcwd fun call hcall hsafety => hexclusive ⟨call, hcall, hsafety⟩).mpr
          (h.resolve_left hexclusive)

theorem slashesApart_of_paths
    (h : ∀ call ∈ calls, ∀ raw ∈ rawOf defs call, raw.onlySlashes = false) :
    SlashesApart cwd defs calls := by
  intro k call hcall path hpath b _ path' hpath'
  obtain ⟨call', hcall', hraw⟩ := List.mem_filterMap.mp hpath'
  obtain ⟨i, -, hi⟩ := List.mem_filterMap.mp hcall'
  exact ⟨h call' (List.mem_of_getElem? hi) _ hraw, h call (List.mem_of_getElem? hcall) _ hpath⟩

theorem planContract_writes :
    PlanContract (.ofNames ["work"]) []
      [onFile "1" "file_write" "a", onFile "2" "file_write" "./b/",
        onFile "3" "file_edit" "b/../a"] :=
  (planContract_iff rfl).mpr (.inr (slashesApart_of_paths (by decide)))

/-- The root is taken for the working directory: a write to it and a write below it share a
group. -/
theorem root_beside_write :
    ¬ PlanContract (.ofNames ["work"]) []
      [onFile "1" "file_write" "/", onFile "2" "file_write" "/etc/x"] := fun h =>
  absurd (h.apart [0, 1] (by decide)) (by decide)

end Contract

end LibreFang.Dispatch
