import LibreFang.Lib.Paths

/-!
# A file system with symbolic links

* `Tree`: directories, files and symbolic links; what has something in it is a directory.
* `walk`: the file system follows the components of a path, and the links that it meets.
* `Os`: a process in a file system; `lookup`, `find`, `makeDirs`, `touched`.
* **`touched_of_noLink`**: a path without links in it touches only itself and what it is missing.
-/

namespace FileTree

open Paths

variable {os : Os}

/-- A place in the tree: the names from the root. -/
abbrev Location := List String

/-- What is at a place. -/
inductive Entry
  | dir
  | file
  | link (target : Path)
  deriving DecidableEq, Repr

/-- A file tree. -/
structure Tree where
  entry : Location → Option Entry
  root : entry [] = some .dir
  up : ∀ loc name, entry (loc ++ [name]) ≠ none → entry loc = some .dir

/-- Why a path is not found; a path may also be refused by every call. -/
inductive IoError
  | notFound
  | notADirectory
  | tooManyLinks
  | refused (text : String)
  deriving DecidableEq, Repr

/-- `Display` of an error. -/
def IoError.text : IoError → String
  | .notFound => "No such file or directory (os error 2)"
  | .notADirectory => "Not a directory (os error 20)"
  | .tooManyLinks => "Too many levels of symbolic links (os error 40)"
  | .refused text => text

/-- Where following a path ends: at a place, or in a directory that the next component is missing
in, or with an error. -/
inductive Outcome
  | found (loc : Location)
  | missing (dir : Location) (rest : List Component)
  | failed (e : IoError)
  deriving DecidableEq, Repr

/-- Following components from a directory up to the next link. -/
def walkFrom (t : Tree) (follow : Location → List Component → Outcome) :
    Location → List Component → Outcome
  | loc, [] => .found loc
  | _, .rootDir :: rest => walkFrom t follow [] rest
  | loc, c :: rest =>
    if t.entry loc = some .dir then
      match c with
      | .normal name =>
        match t.entry (loc ++ [name]) with
        | none => .missing loc (c :: rest)
        | some (.link target) => follow loc (target.steps ++ rest)
        | some _ => walkFrom t follow (loc ++ [name]) rest
      | .parentDir => walkFrom t follow loc.dropLast rest
      | _ => walkFrom t follow loc rest
    else .failed .notADirectory

/-- Following components and at most so many links. -/
def walk (t : Tree) : ℕ → Location → List Component → Outcome
  | 0 => walkFrom t fun _ _ => .failed .tooManyLinks
  | n + 1 => walkFrom t (walk t n)

/-- A tree with one more directory. -/
def Tree.addDir (t : Tree) (dir : Location) (name : String) (h : t.entry dir = some .dir) : Tree where
  entry loc := if loc = dir ++ [name] then some .dir else t.entry loc
  root := by rw [if_neg (by simp), t.root]
  up := by
    intro loc other hother
    by_cases hsame : loc = dir ++ [name]
    · exact if_pos hsame
    · rw [if_neg hsame]
      by_cases hnew : loc ++ [other] = dir ++ [name]
      · rw [(List.append_inj' hnew rfl).1, h]
      · rw [if_neg hnew] at hother
        exact t.up loc other hother

/-- The entry of a list, or the root. -/
def entryOf (entries : List (Location × Entry)) (loc : Location) : Option Entry :=
  if loc = [] then some .dir else entries.lookup loc

/-- The tree of a list of entries, each in a directory. -/
def Tree.ofList (entries : List (Location × Entry))
    (h : ∀ e ∈ entries, entryOf entries e.1.dropLast = some .dir) : Tree where
  entry := entryOf entries
  root := if_pos rfl
  up := by
    intro loc name hne
    unfold entryOf at hne
    rw [if_neg (by simp)] at hne
    obtain ⟨e, he⟩ := Option.ne_none_iff_exists'.mp hne
    obtain ⟨before, after, hentries, -⟩ := List.lookup_eq_some_iff.mp he
    have hdir := h (loc ++ [name], e) (by rw [hentries]; simp)
    rwa [List.dropLast_concat] at hdir

/-- A process in a file system; `refuses` gives the error of a path that no call takes. -/
structure Os where
  tree : Tree
  cwd : Location
  cwd_dir : tree.entry cwd = some .dir
  maxLinks : ℕ
  refuses : Path → Option String

namespace Os

/-- Following a path. -/
def lookup (os : Os) (p : Path) : Outcome :=
  match os.refuses p with
  | some text => .failed (.refused text)
  | none =>
    if p.components = [] then .failed .notFound
    else walk os.tree os.maxLinks os.cwd p.steps

/-- The place that a path leads to. -/
def find (os : Os) (p : Path) : Except IoError Location :=
  match os.lookup p with
  | .found loc => .ok loc
  | .missing _ _ => .error .notFound
  | .failed e => .error e

/-- `Path::exists`. -/
def «exists» (os : Os) (p : Path) : Bool := (os.find p).isOk

/-- `Path::canonicalize`. -/
def canonicalize (os : Os) (p : Path) : Except IoError Path := (os.find p).map Path.ofNames

/-- `mkdir`: the last component is not followed if it is a link. -/
def mkdir (os : Os) (p : Path) : Option (Location × Os) :=
  match os.refuses p, p.components.getLast?,
    walk os.tree os.maxLinks os.cwd p.components.dropLast with
  | none, some (.normal name), .found dir =>
    if h : os.tree.entry dir = some .dir ∧ os.tree.entry (dir ++ [name]) = none then
      some (dir ++ [name],
        { os with
          tree := os.tree.addDir dir name h.1
          cwd_dir := by
            change (if _ then _ else _) = _
            split_ifs
            · rfl
            · exact os.cwd_dir })
    else none
  | _, _, _ => none

/-- The directory of a path, which is made if it is missing. -/
def makeDir (os : Os) (p : Path) : Option (List Location × Os) :=
  match os.lookup p with
  | .found loc => if os.tree.entry loc = some .dir then some ([], os) else none
  | _ => (os.mkdir p).map fun (loc, os) => ([loc], os)

/-- `create_dir_all` along the paths of the directories: what is made, and the process then if no
step failed. -/
def makeDirs (os : Os) : List Path → List Location × Option Os
  | [] => ([], some os)
  | p :: ps =>
    match os.makeDir p with
    | none => ([], none)
    | some (made, os) =>
      let (more, result) := os.makeDirs ps
      (made ++ more, result)

/-- Opening a file for reading touches this. -/
def opened (os : Os) (p : Path) : List Location :=
  match os.lookup p with
  | .found loc => [loc]
  | _ => []

/-- Opening a file that is created if it is missing touches this. -/
def created (os : Os) (p : Path) : List Location :=
  match os.lookup p with
  | .found loc => [loc]
  | .missing dir [.normal name] => [dir ++ [name]]
  | _ => []

/-- What is touched when a path is opened, or created with the missing directories above it. -/
def touched (os : Os) (p : Path) : List Location :=
  let (made, result) := os.makeDirs (p.parent.elim [] Path.ancestors)
  os.opened p ++ made ++ result.elim [] fun os => os.created p

end Os

/-! ## Places that are reached without links -/

/-- What is at a place is no link. -/
def Real (t : Tree) (loc : Location) : Prop := t.entry loc = some .dir ∨ t.entry loc = some .file

/-- No beginning of a list of names is a link. -/
def NoLink (t : Tree) (names : Location) : Prop :=
  ∀ q, q <+: names → ∀ target, t.entry q ≠ some (.link target)

theorem Tree.entry_of_append (t : Tree) {loc names : Location} (h : t.entry (loc ++ names) ≠ none)
    (hne : names ≠ []) : t.entry loc = some .dir := by
  induction names using List.reverseRecOn with
  | nil => exact absurd rfl hne
  | append_singleton names name ih =>
    rw [← List.append_assoc] at h
    have hdir := t.up _ _ h
    cases names with
    | nil => rwa [List.append_nil] at hdir
    | cons n names => exact ih (by rw [hdir]; nofun) (List.cons_ne_nil n names)

theorem Tree.entry_of_prefix (t : Tree) {q loc : Location} (h : t.entry loc ≠ none)
    (hq : q <+: loc) : t.entry q ≠ none := by
  obtain ⟨names, rfl⟩ := hq
  cases names with
  | nil => rwa [List.append_nil] at h
  | cons n names =>
    rw [t.entry_of_append h (List.cons_ne_nil n names)]
    nofun

variable {loc : Location} {t : Tree}

theorem Real.ne_none (h : Real t loc) : t.entry loc ≠ none := by
  rcases h with h | h
  · rw [h]
    nofun
  · rw [h]
    nofun

theorem Real.noLink (h : Real t loc) : NoLink t loc := by
  intro q hq target hlink
  obtain ⟨names, rfl⟩ := hq
  cases names with
  | nil =>
    rw [List.append_nil, Real, hlink] at h
    rcases h with h | h
    · cases h
    · cases h
  | cons n names =>
    rw [t.entry_of_append h.ne_none (List.cons_ne_nil n names)] at hlink
    cases hlink

theorem Tree.dir_dropLast (t : Tree) (h : t.entry loc = some .dir) :
    t.entry loc.dropLast = some .dir := by
  rcases List.eq_nil_or_concat loc with rfl | ⟨names, name, rfl⟩
  · exact h
  · rw [List.concat_eq_append, List.dropLast_concat]
    exact t.up names name (by rw [← List.concat_eq_append, h]; nofun)

section Walk

variable {t : Tree} {follow : Location → List Component → Outcome} {loc : Location}
  {cs : List Component}

theorem walkFrom_curDir :
    walkFrom t follow loc (.curDir :: cs) =
      if t.entry loc = some .dir then walkFrom t follow loc cs else .failed .notADirectory := rfl

theorem walkFrom_parentDir :
    walkFrom t follow loc (.parentDir :: cs) =
      if t.entry loc = some .dir then walkFrom t follow loc.dropLast cs
      else .failed .notADirectory := rfl

theorem walkFrom_normal {name : String} :
    walkFrom t follow loc (.normal name :: cs) =
      if t.entry loc = some .dir then
        match t.entry (loc ++ [name]) with
        | none => .missing loc (.normal name :: cs)
        | some (.link target) => follow loc (target.steps ++ cs)
        | some _ => walkFrom t follow (loc ++ [name]) cs
      else .failed .notADirectory := rfl

theorem walkFrom_of_entry {name : String} {e : Entry} (hdir : t.entry loc = some .dir)
    (hentry : t.entry (loc ++ [name]) = some e) (hlink : ∀ target, e ≠ .link target) :
    walkFrom t follow loc (.normal name :: cs) = walkFrom t follow (loc ++ [name]) cs := by
  rw [walkFrom_normal, if_pos hdir, hentry]
  cases e with
  | link target => exact absurd rfl (hlink target)
  | dir => rfl
  | file => rfl

end Walk

theorem real_of_walkFrom {follow : Location → List Component → Outcome}
    (hfollow : ∀ loc cs found, t.entry loc = some .dir → follow loc cs = .found found → Real t found)
    {loc found : Location} {cs : List Component} (hloc : Real t loc)
    (h : walkFrom t follow loc cs = .found found) : Real t found := by
  induction cs generalizing loc with
  | nil =>
    obtain rfl := Outcome.found.inj h
    exact hloc
  | cons c cs ih =>
    cases c with
    | rootDir => exact ih (.inl t.root) h
    | curDir =>
      rw [walkFrom_curDir] at h
      split_ifs at h with hdir
      exact ih hloc h
    | parentDir =>
      rw [walkFrom_parentDir] at h
      split_ifs at h with hdir
      exact ih (.inl (t.dir_dropLast hdir)) h
    | normal name =>
      rw [walkFrom_normal] at h
      split_ifs at h with hdir
      cases hentry : t.entry (loc ++ [name]) with
      | none =>
        rw [hentry] at h
        cases h
      | some e =>
        rw [hentry] at h
        cases e with
        | dir => exact ih (.inl hentry) h
        | file => exact ih (.inr hentry) h
        | link target => exact hfollow _ _ _ hdir h

theorem real_of_walk {n : ℕ} {loc found : Location} {cs : List Component}
    (hloc : Real t loc) (h : walk t n loc cs = .found found) : Real t found := by
  induction n generalizing loc cs found with
  | zero => exact real_of_walkFrom (fun _ _ _ _ h => by cases h) hloc h
  | succ n ih => exact real_of_walkFrom (fun _ _ _ hdir h => ih (.inl hdir) h) hloc h

theorem walkFrom_names {follow : Location → List Component → Outcome}
    {loc names : Location} {rest : List Component}
    (hno : ∀ q, q <+: names → ∀ target, t.entry (loc ++ q) ≠ some (.link target))
    (hrest : rest = [] ∨ rest = [.curDir]) :
    walkFrom t follow loc (names.map .normal ++ rest) = .found (loc ++ names) ∨
      walkFrom t follow loc (names.map .normal ++ rest) = .failed .notADirectory ∨
      ∃ q name names', names = q ++ name :: names' ∧ t.entry (loc ++ q ++ [name]) = none ∧
        walkFrom t follow loc (names.map .normal ++ rest) =
          .missing (loc ++ q) (.normal name :: (names'.map .normal ++ rest)) := by
  induction names generalizing loc with
  | nil =>
    rw [List.append_nil, List.map_nil, List.nil_append]
    rcases hrest with rfl | rfl
    · exact .inl rfl
    · rw [walkFrom_curDir]
      split_ifs
      · exact .inl rfl
      · exact .inr (.inl rfl)
  | cons name names ih =>
    rw [List.map_cons, List.cons_append]
    by_cases hdir : t.entry loc = some .dir
    · cases hentry : t.entry (loc ++ [name]) with
      | none =>
        refine .inr (.inr ⟨[], name, names, rfl, ?_, ?_⟩)
        · rw [List.append_nil, hentry]
        · rw [walkFrom_normal, if_pos hdir, hentry, List.append_nil]
      | some e =>
        have hlink (target : Path) : e ≠ .link target := by
          rintro rfl
          exact hno [name] ⟨names, rfl⟩ target hentry
        have hnext : ∀ q, q <+: names → ∀ target, t.entry (loc ++ [name] ++ q) ≠ some (.link target) :=
          fun q hq target => by
            rw [List.append_assoc]
            exact hno (name :: q) (List.cons_prefix_cons.mpr ⟨rfl, hq⟩) target
        rw [walkFrom_of_entry hdir hentry hlink]
        rcases ih hnext with h | h | ⟨q, other, names', rfl, hmissing, h⟩
        · exact .inl (by rw [h, List.append_assoc]; rfl)
        · exact .inr (.inl h)
        · refine .inr (.inr ⟨name :: q, other, names', rfl, ?_, ?_⟩)
          · rw [← hmissing, List.append_assoc loc [name] q]
            rfl
          · rw [h, List.append_assoc loc [name] q]
            rfl
    · exact .inr (.inl (by rw [walkFrom_normal, if_neg hdir]))

variable {names : Location}

theorem walk_names (n : ℕ) (loc : Location) (hno : NoLink t names)
    {rest : List Component} (hrest : rest = [] ∨ rest = [.curDir]) :
    walk t n loc (.rootDir :: (names.map .normal ++ rest)) = .found names ∨
      walk t n loc (.rootDir :: (names.map .normal ++ rest)) = .failed .notADirectory ∨
      ∃ q name names', names = q ++ name :: names' ∧ t.entry (q ++ [name]) = none ∧
        walk t n loc (.rootDir :: (names.map .normal ++ rest)) =
          .missing q (.normal name :: (names'.map .normal ++ rest)) := by
  cases n with
  | zero => exact walkFrom_names hno hrest
  | succ n => exact walkFrom_names hno hrest

namespace Os

variable {p : Path}

theorem walk_of_find (h : os.find p = .ok loc) :
    p.components ≠ [] ∧ walk os.tree os.maxLinks os.cwd p.steps = .found loc := by
  unfold find lookup at h
  cases hrefuses : os.refuses p with
  | some text =>
    rw [hrefuses] at h
    cases h
  | none =>
    rw [hrefuses] at h
    dsimp only at h
    by_cases hnil : p.components = []
    · rw [if_pos hnil] at h
      cases h
    · rw [if_neg hnil] at h
      refine ⟨hnil, ?_⟩
      cases hwalk : walk os.tree os.maxLinks os.cwd p.steps with
      | found place =>
        rw [hwalk] at h
        rw [Except.ok.inj h]
      | missing dir rest =>
        rw [hwalk] at h
        cases h
      | failed e =>
        rw [hwalk] at h
        cases h

theorem exists_of_canonicalize {p canon : Path} (h : os.canonicalize p = .ok canon) :
    ∃ loc, os.find p = .ok loc ∧ canon = Path.ofNames loc := by
  unfold canonicalize at h
  cases hfind : os.find p with
  | error e =>
    rw [hfind] at h
    cases h
  | ok loc =>
    rw [hfind] at h
    exact ⟨loc, rfl, (Except.ok.inj h).symm⟩

theorem real_of_canonicalize {p canon : Path} (h : os.canonicalize p = .ok canon) :
    ∃ loc, canon = Path.ofNames loc ∧ Real os.tree loc := by
  obtain ⟨loc, hfind, hcanon⟩ := exists_of_canonicalize h
  exact ⟨loc, hcanon, real_of_walk (.inl os.cwd_dir) (walk_of_find hfind).2⟩

theorem components_ne_nil_of_canonicalize {p canon : Path}
    (h : os.canonicalize p = .ok canon) : p.components ≠ [] := by
  obtain ⟨loc, hfind, -⟩ := exists_of_canonicalize h
  exact (walk_of_find hfind).1

end Os

/-! ## What is made on the way -/

/-- The second tree has more directories on the way to a place, and is the same else. -/
def Extends (names : Location) (t t' : Tree) : Prop :=
  ∀ loc, t'.entry loc = t.entry loc ∨
    loc <+: names ∧ t.entry loc = none ∧ t'.entry loc = some .dir

theorem Extends.noLink {t t' : Tree} (h : Extends names t t')
    (hno : NoLink t names) : NoLink t' names := by
  intro q hq target hlink
  rcases h q with hsame | ⟨-, -, hdir⟩
  · exact hno q hq target (hsame ▸ hlink)
  · rw [hdir] at hlink
    cases hlink

theorem Extends.entry_eq_none {t t' : Tree} (h : Extends names t t') (hloc : t'.entry loc = none) :
    t.entry loc = none := by
  rcases h loc with hsame | ⟨-, hnone, -⟩
  · rw [← hsame, hloc]
  · exact hnone

theorem Extends.addDir {t t' : Tree} (h : Extends names t t') {dir : Location}
    {name : String} (hdir : t'.entry dir = some .dir) (hnone : t'.entry (dir ++ [name]) = none)
    (hon : dir ++ [name] <+: names) : Extends names t (t'.addDir dir name hdir) := by
  intro loc
  by_cases hloc : loc = dir ++ [name]
  · obtain rfl := hloc
    exact .inr ⟨hon, h.entry_eq_none hnone, if_pos rfl⟩
  · have hkeep : (t'.addDir dir name hdir).entry loc = t'.entry loc := if_neg hloc
    rw [hkeep]
    exact h loc

/-- A place on the way that is missing. -/
def MissingOn (t : Tree) (names loc : Location) : Prop := loc <+: names ∧ t.entry loc = none

namespace Os

theorem mkdir_names {os os' : Os} {names q made : Location}
    (hext : Extends names t os.tree) (hno : NoLink t names) (hq : q <+: names)
    (h : os.mkdir (Path.ofNames q) = some (made, os')) :
    MissingOn t names made ∧ Extends names t os'.tree := by
  unfold mkdir at h
  cases hrefuses : os.refuses (Path.ofNames q) with
  | some text =>
    rw [hrefuses] at h
    cases h
  | none =>
    rcases List.eq_nil_or_concat q with rfl | ⟨dir, name, rfl⟩
    · rw [hrefuses] at h
      cases h
    · rw [List.concat_eq_append] at hq hrefuses h
      have hlast : (Path.ofNames (dir ++ [name])).components.getLast? = some (.normal name) := by
        rw [Path.components_ofNames_append, List.getLast?_concat]
      have hdrop : (Path.ofNames (dir ++ [name])).components.dropLast =
          .rootDir :: (dir.map .normal ++ []) := by
        rw [Path.components_ofNames_append, List.dropLast_concat, List.append_nil]
        rfl
      have hdirNo : NoLink os.tree dir := fun q' hq' =>
        hext.noLink hno q' ((hq'.trans (List.prefix_append dir [name])).trans hq)
      rw [hrefuses, hlast, hdrop] at h
      rcases walk_names os.maxLinks os.cwd hdirNo (.inl rfl) with hwalk | hwalk | ⟨_, _, _, _, _, hwalk⟩
      · rw [hwalk] at h
        dsimp only at h
        split_ifs at h with hmake
        obtain ⟨rfl, rfl⟩ := Prod.mk.inj (Option.some.inj h)
        exact ⟨⟨hq, hext.entry_eq_none hmake.2⟩, hext.addDir hmake.1 hmake.2 hq⟩
      · rw [hwalk] at h
        cases h
      · rw [hwalk] at h
        cases h

theorem makeDirs_names (hext : Extends names t os.tree)
    (hno : NoLink t names) {qs : List Location} (hqs : ∀ q ∈ qs, q <+: names) :
    (∀ loc ∈ (os.makeDirs (qs.map Path.ofNames)).1, MissingOn t names loc) ∧
      ∀ os' ∈ (os.makeDirs (qs.map Path.ofNames)).2, Extends names t os'.tree := by
  induction qs generalizing os with
  | nil => exact ⟨nofun, fun os' h => Option.some.inj h ▸ hext⟩
  | cons q qs ih =>
    have hrest : ∀ q' ∈ qs, q' <+: names := fun q' h => hqs q' (List.mem_cons_of_mem q h)
    rw [List.map_cons, makeDirs]
    cases hmake : os.makeDir (Path.ofNames q) with
    | none => exact ⟨nofun, nofun⟩
    | some result =>
      obtain ⟨made, os'⟩ := result
      have hstep : (∀ loc ∈ made, MissingOn t names loc) ∧ Extends names t os'.tree := by
        unfold makeDir at hmake
        split at hmake
        · split_ifs at hmake
          obtain ⟨rfl, rfl⟩ := Prod.mk.inj (Option.some.inj hmake)
          exact ⟨nofun, hext⟩
        · obtain ⟨⟨loc, os''⟩, hmkdir, heq⟩ := Option.map_eq_some_iff.mp hmake
          obtain ⟨rfl, rfl⟩ := Prod.mk.inj heq
          obtain ⟨hmissing, hext'⟩ := mkdir_names hext hno (hqs q List.mem_cons_self) hmkdir
          exact ⟨fun _ h => List.mem_singleton.mp h ▸ hmissing, hext'⟩
      obtain ⟨hmore, hresult⟩ := ih hstep.2 hrest
      exact ⟨fun loc h => (List.mem_append.mp h).elim (hstep.1 loc) (hmore loc), hresult⟩

theorem lookup_names (os : Os) (hp : IsNames p names) (hno : NoLink os.tree names) :
    os.lookup p = .found names ∨ (∃ e, os.lookup p = .failed e) ∨
      ∃ q name names' rest, names = q ++ name :: names' ∧
        os.lookup p = .missing q (.normal name :: (names'.map .normal ++ rest)) := by
  unfold lookup
  cases os.refuses p with
  | some text => exact .inr (.inl ⟨_, rfl⟩)
  | none =>
    have hsteps : p.steps =
        .rootDir :: (names.map .normal ++ if p.trailing then [.curDir] else []) := by
      unfold Path.steps
      rw [hp, List.cons_append]
    have hrest : (if p.trailing then [Component.curDir] else []) = [] ∨
        (if p.trailing then [Component.curDir] else []) = [.curDir] := by
      split_ifs
      · exact .inr rfl
      · exact .inl rfl
    dsimp only
    rw [if_neg (by rw [hp]; exact List.cons_ne_nil _ _), hsteps]
    rcases walk_names os.maxLinks os.cwd hno hrest with h | h | ⟨q, name, names', heq, -, h⟩
    · exact .inl h
    · exact .inr (.inl ⟨_, h⟩)
    · exact .inr (.inr ⟨q, name, names', _, heq, h⟩)

theorem mem_of_opened (hp : IsNames p names)
    (hno : NoLink os.tree names) (h : loc ∈ os.opened p) : loc = names := by
  unfold opened at h
  rcases os.lookup_names hp hno with hout | ⟨e, hout⟩ | ⟨q, name, names', rest, -, hout⟩
  · rw [hout] at h
    exact List.mem_singleton.mp h
  · rw [hout] at h
    cases h
  · rw [hout] at h
    cases h

theorem mem_of_created (hp : IsNames p names)
    (hno : NoLink os.tree names) (h : loc ∈ os.created p) : loc = names := by
  unfold created at h
  rcases os.lookup_names hp hno with hout | ⟨e, hout⟩ | ⟨q, name, names', rest, rfl, hout⟩
  · rw [hout] at h
    exact List.mem_singleton.mp h
  · rw [hout] at h
    cases h
  · rw [hout] at h
    cases names' with
    | nil =>
      cases rest with
      | nil => exact List.mem_singleton.mp h
      | cons c rest => cases h
    | cons n names' => cases h

theorem ancestors_parent (hp : IsNames p names) :
    ∃ qs : List Location, (∀ q ∈ qs, q <+: names) ∧
      p.parent.elim [] Path.ancestors = qs.map Path.ofNames := by
  rcases List.eq_nil_or_concat names with rfl | ⟨dir, name, rfl⟩
  · refine ⟨[], nofun, ?_⟩
    unfold Path.parent
    rw [hp]
    rfl
  · rw [List.concat_eq_append] at hp ⊢
    have hcomponents : p.components = (Path.ofNames dir).components ++ [.normal name] :=
      hp.trans (Path.components_ofNames_append dir name)
    have hparent : p.parent = some (Path.ofNames dir) := by
      unfold Path.parent
      rw [hcomponents, List.getLast?_concat, List.dropLast_concat]
      rfl
    refine ⟨dir.inits, fun q hq => ?_, ?_⟩
    · exact ((List.mem_inits q dir).mp hq).trans (List.prefix_append dir [name])
    · rw [hparent]
      exact Path.ancestors_ofNames dir

/-- **A path without links.** Opening or creating it touches only itself and what is missing on the
way. -/
theorem touched_of_noLink (hp : IsNames p names) (hno : NoLink os.tree names) :
    ∀ loc ∈ os.touched p, loc = names ∨ MissingOn os.tree names loc := by
  obtain ⟨qs, hqs, hancestors⟩ := ancestors_parent hp
  have hself : Extends names os.tree os.tree := fun _ => .inl rfl
  obtain ⟨hmade, hresult⟩ := makeDirs_names hself hno hqs
  unfold touched
  rw [hancestors]
  intro loc hloc
  rw [List.mem_append, List.mem_append] at hloc
  rcases hloc with (hopened | hloc) | hloc
  · exact .inl (mem_of_opened hp hno hopened)
  · exact .inr (hmade loc hloc)
  · cases hos : (os.makeDirs (qs.map Path.ofNames)).2 with
    | none =>
      rw [hos] at hloc
      cases hloc
    | some os' =>
      rw [hos] at hloc
      exact .inl (mem_of_created hp ((hresult os' hos).noLink hno) hloc)

end Os

end FileTree
