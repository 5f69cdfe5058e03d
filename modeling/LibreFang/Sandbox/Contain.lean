import LibreFang.Sandbox.Resolve

/-!
# Containment in the workspace

* `Inside`: the places at or below the roots.
* `Named`: the place that a new path names; **`named_canonNew`**.
* **`inside_of_confined`**: what is returned leads to nothing else if it was there or no component of
  it is a symbolic link; else that link is not resolved.
-/

namespace LibreFang.Sandbox

open FileTree Paths

variable {os : Os} {userPath : String} {workspaceRoot : Path} {additionalRoots : List Path}

/-- The place is at or below the canonical workspace root or an additional root. -/
def Inside (os : Os) (workspaceRoot : Path) (additionalRoots : List Path) (loc : Location) : Prop :=
  ∃ root, (os.canonicalize workspaceRoot = .ok root ∨ root ∈ additionalRoots) ∧
    (Path.ofNames loc).startsWith root = true

/-- The place that the components of a new path name. Links are followed on the way to its
directory only, or, where that is missing, on the way to the workspace root. -/
inductive Named (os : Os) (path workspaceRoot : Path) (additionalRoots : List Path) :
    Location → Prop
  | inDirectory {parent : Path} {name : String} {dir : Location}
    (hparent : (candidateOf path workspaceRoot).parent = some parent)
    (hname : (candidateOf path workspaceRoot).fileName = some name)
    (hdir : os.find parent = .ok dir) : Named os path workspaceRoot additionalRoots (dir ++ [name])
  | underRoot {base names : Location}
    (hmissing : ∀ parent ∈ (candidateOf path workspaceRoot).parent, os.exists parent ≠ true)
    (hothers : path.isAbsolute = true → ∀ root ∈ additionalRoots, path.startsWith root ≠ true)
    (hroot : os.find workspaceRoot = .ok base)
    (hnames : (candidateOf path workspaceRoot).components =
      workspaceRoot.components ++ names.map .normal) :
    Named os path workspaceRoot additionalRoots (base ++ names)
  | asGiven {names : Location}
    (hmissing : ∀ parent ∈ (candidateOf path workspaceRoot).parent, os.exists parent ≠ true)
    (hnames : IsNames path names)
    (hroots : (∃ root ∈ additionalRoots, path.startsWith root = true) ∨
      path.startsWith workspaceRoot ≠ true) :
    Named os path workspaceRoot additionalRoots names

/-- A component of the path is a symbolic link. -/
def HasLink (os : Os) (p : Path) : Prop :=
  ∃ names, IsNames p names ∧ ¬ NoLink os.tree names

/-- The candidate exists already, or no component of the new path is a symbolic link. -/
def Confined (os : Os) (userPath : String) (workspaceRoot : Path) (additionalRoots : List Path) :
    Prop :=
  let path := Path.ofString userPath
  os.exists (candidateOf path workspaceRoot) = true ∨
    ∀ loc, Named os path workspaceRoot additionalRoots loc → NoLink os.tree loc

/-! ## The place of a new path -/

variable {p : Path}

theorem isNames_inj {names names' : List String} (h : IsNames p names)
    (h' : IsNames p names') : names = names' :=
  List.map_injective_iff.mpr (fun _ _ heq => Component.normal.inj heq)
    (List.cons.inj (h.symm.trans h')).2

theorem Named.eq {path : Path} {loc loc' : Location}
    (h : Named os path workspaceRoot additionalRoots loc)
    (h' : Named os path workspaceRoot additionalRoots loc') : loc = loc' := by
  have hfound {parent : Path} {dir : Location} (hdir : os.find parent = .ok dir) :
      os.exists parent = true := by
    unfold Os.exists
    rw [hdir]
    rfl
  have hcandidate {names : Location} (hnames : IsNames path names) :
      candidateOf path workspaceRoot = path := if_pos hnames.isAbsolute
  have hapart {names names' : Location} (hnames : IsNames path names)
      (hroots : (∃ root ∈ additionalRoots, path.startsWith root = true) ∨
        path.startsWith workspaceRoot ≠ true)
      (hothers : path.isAbsolute = true → ∀ root ∈ additionalRoots, path.startsWith root ≠ true)
      (hunder : (candidateOf path workspaceRoot).components =
        workspaceRoot.components ++ names'.map .normal) : False := by
    rcases hroots with ⟨root, hmem, hstarts⟩ | hnot
    · exact hothers hnames.isAbsolute root hmem hstarts
    · refine hnot (List.isPrefixOf_iff_prefix.mpr ?_)
      rw [← hcandidate hnames, hunder]
      exact List.prefix_append _ _
  cases h with
  | inDirectory hparent hname hdir =>
    cases h' with
    | inDirectory hparent' hname' hdir' =>
      obtain rfl := Option.some.inj (hparent.symm.trans hparent')
      rw [Except.ok.inj (hdir.symm.trans hdir'), Option.some.inj (hname.symm.trans hname')]
    | underRoot hmissing => exact absurd (hfound hdir) (hmissing _ hparent)
    | asGiven hmissing => exact absurd (hfound hdir) (hmissing _ hparent)
  | underRoot hmissing hothers hroot hnames =>
    cases h' with
    | inDirectory hparent hname hdir => exact absurd (hfound hdir) (hmissing _ hparent)
    | underRoot hmissing' hothers' hroot' hnames' =>
      have hsame := List.append_cancel_left (hnames.symm.trans hnames')
      rw [Except.ok.inj (hroot.symm.trans hroot'),
        List.map_injective_iff.mpr (fun _ _ heq => Component.normal.inj heq) hsame]
    | asGiven hmissing' hnames' hroots' => exact (hapart hnames' hroots' hothers hnames).elim
  | asGiven hmissing hnames hroots =>
    cases h' with
    | inDirectory hparent hname hdir => exact absurd (hfound hdir) (hmissing _ hparent)
    | underRoot hmissing' hothers' hroot' hnames' =>
      exact (hapart hnames hroots hothers' hnames').elim
    | asGiven hmissing' hnames' hroots' => exact isNames_inj hnames hnames'

theorem append_of_stripPrefix {p base rest : Path} (h : p.stripPrefix base = some rest) :
    p.startsWith base = true ∧ p.components = base.components ++ rest.components := by
  unfold Path.stripPrefix at h
  split_ifs at h with hstarts
  obtain rfl := Option.some.inj h
  refine ⟨hstarts, ?_⟩
  obtain ⟨cs, hcs⟩ := List.isPrefixOf_iff_prefix.mp hstarts
  rw [← hcs, List.drop_left]

theorem components_candidateOf {path : Path} {names : List String}
    (hroot : workspaceRoot.components ≠ []) (habs : path.isAbsolute = false)
    (hpath : path.components.filter (· ≠ .curDir) = names.map .normal) :
    (candidateOf path workspaceRoot).components =
      workspaceRoot.components ++ names.map .normal := by
  unfold candidateOf
  rw [habs, if_neg Bool.false_ne_true]
  exact components_join hroot habs hpath

theorem named_rebase {path : Path} {base : Location}
    (hroot : os.find workspaceRoot = .ok base) (hne : workspaceRoot.components ≠ [])
    (hroots : ∀ root ∈ additionalRoots, ∃ loc, root = Path.ofNames loc) (hpath : path.IsPlain)
    (hmissing : ∀ parent ∈ (candidateOf path workspaceRoot).parent, os.exists parent ≠ true) :
    ∃ loc, Named os path workspaceRoot additionalRoots loc ∧
      IsNames (rebase path workspaceRoot (Path.ofNames base) additionalRoots) loc := by
  unfold rebase
  dsimp only
  rcases hpath.isNames_or with ⟨pathNames, hnames⟩ | ⟨habs, pathNames, hnames⟩
  · have hcandidate : candidateOf path workspaceRoot = path := if_pos hnames.isAbsolute
    rw [hnames.isAbsolute, if_pos rfl, hcandidate]
    cases hfind : additionalRoots.findSome? fun root => (path.stripPrefix root).map root.join with
    | some p =>
      obtain ⟨root, hmem, hp⟩ := List.exists_of_findSome?_eq_some hfind
      obtain ⟨rest, hrest, rfl⟩ := Option.map_eq_some_iff.mp hp
      obtain ⟨loc, rfl⟩ := hroots root hmem
      obtain ⟨hstarts, happend⟩ := append_of_stripPrefix hrest
      obtain ⟨names', hnames'⟩ := hnames.stripPrefix (List.cons_ne_nil _ _) hrest
      have hjoin := (isNames_ofNames loc).join hnames'
      refine ⟨pathNames, .asGiven hmissing hnames (.inl ⟨_, hmem, hstarts⟩), ?_⟩
      rw [Option.getD_some, IsNames, hjoin, ← hnames, happend, hnames', Path.ofNames,
        List.map_append, List.cons_append]
    | none =>
      have hothers : ∀ root ∈ additionalRoots, path.startsWith root ≠ true := by
        intro root hmem hstarts
        have hnone := Option.map_eq_none_iff.mp (List.findSome?_eq_none_iff.mp hfind root hmem)
        unfold Path.stripPrefix at hnone
        rw [if_pos hstarts] at hnone
        cases hnone
      rw [Option.getD_none]
      cases hrest : path.stripPrefix workspaceRoot with
      | none =>
        refine ⟨pathNames, .asGiven hmissing hnames (.inr fun hstarts => ?_), ?_⟩
        · unfold Path.stripPrefix at hrest
          rw [if_pos hstarts] at hrest
          cases hrest
        · unfold Path.join
          rw [Option.getD_none, if_pos (.inl hnames.isAbsolute)]
          exact hnames
      | some rest =>
        obtain ⟨names', hnames'⟩ := hnames.stripPrefix hne hrest
        obtain ⟨-, happend⟩ := append_of_stripPrefix hrest
        refine ⟨base ++ names', .underRoot hmissing (fun _ => hothers) hroot ?_, ?_⟩
        · rw [hcandidate, happend, hnames']
        · exact (isNames_ofNames base).join hnames'
  · have hcomponents := components_candidateOf hne habs hnames
    rw [habs, if_neg Bool.false_ne_true, stripPrefix_of_append hcomponents]
    refine ⟨base ++ pathNames, .underRoot hmissing (fun h => ?_) hroot hcomponents, ?_⟩
    · rw [habs] at h
      cases h
    · exact (isNames_ofNames base).join rfl

/-- **A new path consists of the names of its place.** -/
theorem named_canonNew {path p : Path} {base : Location}
    (hroot : os.find workspaceRoot = .ok base) (hne : workspaceRoot.components ≠ [])
    (hroots : ∀ root ∈ additionalRoots, ∃ loc, root = Path.ofNames loc) (hpath : path.IsPlain)
    (h : canonNew os path workspaceRoot (Path.ofNames base) additionalRoots = .ok p) :
    ∃ loc, Named os path workspaceRoot additionalRoots loc ∧ IsNames p loc := by
  unfold canonNew at h
  dsimp only at h
  split at h
  · cases h
  · cases h
  · rename_i parent filename hparent hname
    split_ifs at h with hexists
    · cases hcanon : os.canonicalize parent with
      | error e =>
        rw [hcanon] at h
        cases h
      | ok canonParent =>
        rw [hcanon] at h
        obtain rfl := Except.ok.inj h
        obtain ⟨dir, hfind, rfl⟩ := Os.exists_of_canonicalize hcanon
        exact ⟨dir ++ [filename], .inDirectory hparent hname hfind, (isNames_ofNames dir).join rfl⟩
    · obtain rfl := Except.ok.inj h
      refine named_rebase hroot hne hroots hpath fun q hq => ?_
      rw [Option.mem_def, hparent] at hq
      exact Option.some.inj hq ▸ hexists

/-! ## Containment -/

theorem startsWith_ofNames_iff {names root : List String} (hp : IsNames p names) :
    p.startsWith (Path.ofNames root) = true ↔ root <+: names := by
  have hinj : Function.Injective Component.normal := fun _ _ h => Component.normal.inj h
  unfold Path.startsWith
  rw [hp, List.isPrefixOf_iff_prefix, Path.ofNames, List.prefix_cons_inj,
    List.prefix_map_iff_of_injective hinj]

theorem inside_of_noLink {names root : List String} (hp : IsNames p names)
    (hno : NoLink os.tree names) (hroot : Real os.tree root) (hstarts : root <+: names) :
    ∀ loc ∈ os.touched p, root <+: loc := by
  intro loc hloc
  rcases Os.touched_of_noLink hp hno loc hloc with rfl | ⟨hon, hmissing⟩
  · exact hstarts
  · refine (List.prefix_or_prefix_of_prefix hstarts hon).resolve_right fun h => ?_
    exact os.tree.entry_of_prefix hroot.ne_none h hmissing

theorem cases_of_resolve
    (h : resolveSandboxPathExt os userPath workspaceRoot additionalRoots = .ok p) :
    (Path.ofString userPath).IsPlain ∧ ∃ canonRoot, os.canonicalize workspaceRoot = .ok canonRoot ∧
      (p.startsWith canonRoot = true ∨ ∃ root ∈ additionalRoots, p.startsWith root = true) ∧
      canonCandidate os (Path.ofString userPath) workspaceRoot canonRoot additionalRoots = .ok p := by
  unfold resolveSandboxPathExt at h
  dsimp only at h
  split_ifs at h with hparent
  have hplain : .parentDir ∉ (Path.ofString userPath).components := fun hmem =>
    hparent (List.any_eq_true.mpr ⟨_, hmem, rfl⟩)
  refine ⟨Path.isPlain_ofString hplain, ?_⟩
  cases hroot : os.canonicalize workspaceRoot with
  | error e =>
    rw [hroot] at h
    cases h
  | ok canonRoot =>
    rw [hroot] at h
    dsimp only at h
    cases hcandidate : canonCandidate os (Path.ofString userPath) workspaceRoot canonRoot
        additionalRoots with
    | error e =>
      rw [hcandidate] at h
      cases h
    | ok q =>
      rw [hcandidate] at h
      dsimp only at h
      split_ifs at h with houtside
      obtain rfl := Except.ok.inj h
      refine ⟨canonRoot, rfl, ?_, hcandidate⟩
      rw [not_and_or, not_not, not_not] at houtside
      exact houtside.imp_right List.any_eq_true.mp

theorem cases_of_canonCandidate {path canonRoot p : Path}
    (h : canonCandidate os path workspaceRoot canonRoot additionalRoots = .ok p) :
    os.canonicalize (candidateOf path workspaceRoot) = .ok p ∨
      os.exists (candidateOf path workspaceRoot) ≠ true ∧
        canonNew os path workspaceRoot canonRoot additionalRoots = .ok p := by
  unfold canonCandidate at h
  dsimp only at h
  split_ifs at h with hexists
  · cases hcanon : os.canonicalize (candidateOf path workspaceRoot) with
    | error e =>
      rw [hcanon] at h
      cases h
    | ok q =>
      rw [hcanon] at h
      exact .inl (congrArg Except.ok (Except.ok.inj h))
  · exact .inr ⟨hexists, h⟩

/-- **When the workspace confines.** What is returned leads to the roots only, unless a component of
a new path is a link: then that link is in the path that is returned. -/
theorem inside_of_confined
    (hroots : ∀ root ∈ additionalRoots, os.canonicalize root = .ok root)
    (h : resolveSandboxPathExt os userPath workspaceRoot additionalRoots = .ok p) :
    (Confined os userPath workspaceRoot additionalRoots →
      ∀ loc ∈ os.touched p, Inside os workspaceRoot additionalRoots loc) ∧
    (¬ Confined os userPath workspaceRoot additionalRoots → HasLink os p) := by
  obtain ⟨hplain, canonRoot, hcanonRoot, hstarts, hcandidate⟩ := cases_of_resolve h
  have hallRoots : ∀ root ∈ additionalRoots, ∃ loc, root = Path.ofNames loc := fun root hmem =>
    (Os.real_of_canonicalize (hroots root hmem)).imp fun loc h => h.1
  obtain ⟨rootNames, hrootFind, rfl⟩ := Os.exists_of_canonicalize hcanonRoot
  have hrootReal : Real os.tree rootNames :=
    real_of_walk (.inl os.cwd_dir) (Os.walk_of_find hrootFind).2
  -- A path without links is below the root that it begins with.
  have hbelow {names : List String} (hp : IsNames p names) (hno : NoLink os.tree names) :
      ∀ loc ∈ os.touched p, Inside os workspaceRoot additionalRoots loc := by
    intro loc hloc
    rcases hstarts with hstarts | ⟨root, hmem, hstarts⟩
    · refine ⟨_, .inl hcanonRoot, (startsWith_ofNames_iff (isNames_ofNames loc)).mpr ?_⟩
      exact inside_of_noLink hp hno hrootReal ((startsWith_ofNames_iff hp).mp hstarts) loc hloc
    · obtain ⟨names', rfl, hreal⟩ := Os.real_of_canonicalize (hroots root hmem)
      refine ⟨_, .inr hmem, (startsWith_ofNames_iff (isNames_ofNames loc)).mpr ?_⟩
      exact inside_of_noLink hp hno hreal ((startsWith_ofNames_iff hp).mp hstarts) loc hloc
  have hne := Os.components_ne_nil_of_canonicalize hcanonRoot
  constructor
  · intro hconfined
    rcases cases_of_canonCandidate hcandidate with hcanon | ⟨hexists, hpath⟩
    · obtain ⟨loc, rfl, hreal⟩ := Os.real_of_canonicalize hcanon
      exact hbelow (isNames_ofNames loc) hreal.noLink
    · obtain ⟨names, hnamed, hnames⟩ := named_canonNew hrootFind hne hallRoots hplain hpath
      exact hbelow hnames (hconfined.resolve_left hexists names hnamed)
  · intro hnot
    obtain ⟨hexists, hlinks⟩ := not_or.mp hnot
    obtain ⟨loc, hlinked⟩ := not_forall.mp hlinks
    obtain ⟨hnamed, hlink⟩ := Classical.not_imp.mp hlinked
    unfold canonCandidate at hcandidate
    dsimp only at hcandidate
    rw [if_neg hexists] at hcandidate
    obtain ⟨names, hnamed', hnames⟩ := named_canonNew hrootFind hne hallRoots hplain hcandidate
    exact ⟨names, hnames, hnamed.eq hnamed' ▸ hlink⟩

/-- A workspace with a file, and with a link to what is outside. -/
def linkedTree : Tree :=
  .ofList [(["ws"], .dir), (["ws", "a.txt"], .file), (["ws", "link"], .link (.ofNames ["out"])),
    (["out"], .dir)] (by decide)

/-- A process in this tree. -/
def linkedOs : Os := ⟨linkedTree, [], rfl, 40, fun _ => none⟩

theorem inside_existing_file :
    Inside linkedOs (.ofNames ["ws"]) [.ofNames ["out"]] ["ws", "a.txt"] := by
  have hok : resolveSandboxPathExt linkedOs "a.txt" (.ofNames ["ws"]) [.ofNames ["out"]] =
      .ok (.ofNames ["ws", "a.txt"]) := by
    decide +kernel
  exact (inside_of_confined (by decide +kernel) hok).1 (.inl (by decide +kernel)) _
    (by decide +kernel)

/-- A file in a new directory behind a link that leaves the workspace. -/
theorem touched_behind_link :
    ¬ ∀ (os : Os) (userPath : String) (workspaceRoot : Path) (additionalRoots : List Path) (p : Path),
      (∀ root ∈ additionalRoots, os.canonicalize root = .ok root) →
      resolveSandboxPathExt os userPath workspaceRoot additionalRoots = .ok p →
        ∀ loc ∈ os.touched p, Inside os workspaceRoot additionalRoots loc := by
  intro h
  have hok : resolveSandboxPathExt linkedOs "link/new/b.txt" (.ofNames ["ws"]) [] =
      .ok (.ofNames ["ws", "link", "new", "b.txt"]) := by
    decide +kernel
  have htouched : ["out", "new", "b.txt"] ∈
      linkedOs.touched (.ofNames ["ws", "link", "new", "b.txt"]) := by
    decide +kernel
  have hcanon : linkedOs.canonicalize (.ofNames ["ws"]) = .ok (.ofNames ["ws"]) := by
    decide +kernel
  obtain ⟨root, hroot | hroot, hstarts⟩ := h _ _ _ [] _ (by decide) hok _ htouched
  · obtain rfl := Except.ok.inj (hcanon.symm.trans hroot)
    exact absurd hstarts (by decide)
  · cases hroot

end LibreFang.Sandbox
