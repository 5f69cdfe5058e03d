import Mathlib.Data.List.Infix
import Mathlib.Data.List.DropRight

/-!
# Paths

Paths of Unix file systems as `std::path` takes them apart.

* `Component`, `Path`: the components of a path, and whether it ends with a slash.
* `Path.ofString`: `Path::new`.
* `join`, `parent`, `fileName`, `withExtension`, `startsWith`, `stripPrefix`.
* `Path.IsPlain`, **`isPlain_ofString`**: paths without `..`.
* `IsNames`: paths of names from the root.
-/

namespace Paths

/-- `Component`. -/
inductive Component
  | rootDir
  | curDir
  | parentDir
  | normal (name : String)
  deriving DecidableEq, Repr

/-- A path. Whether it ends with a slash or a dot does not count when paths are compared, but the
file system takes only a directory then. -/
structure Path where
  components : List Component
  trailing : Bool
  deriving DecidableEq, Repr

namespace Path

/-- The component of a piece between slashes. -/
def ofPiece (piece : List Char) : Option Component :=
  if piece = [] ∨ piece = ['.'] then none
  else if piece = ['.', '.'] then some .parentDir
  else some (.normal (String.ofList piece))

/-- `Path::new`. -/
def ofString (s : String) : Path :=
  let pieces := s.toList.splitOn '/'
  if s.toList = [] then ⟨[], false⟩
  else
    let front : List Component :=
      if pieces.head? = some [] then [.rootDir]
      else if pieces.head? = some ['.'] then [.curDir]
      else []
    ⟨front ++ pieces.filterMap ofPiece, pieces.getLast? == some [] || pieces.getLast? == some ['.']⟩

/-- `Path::is_absolute`. -/
def isAbsolute (p : Path) : Bool := p.components.head? == some .rootDir

/-- `Path::starts_with`. -/
def startsWith (p base : Path) : Bool := base.components.isPrefixOf p.components

/-- `Path::strip_prefix`. -/
def stripPrefix (p base : Path) : Option Path :=
  if p.startsWith base then some ⟨p.components.drop base.components.length, false⟩ else none

/-- `Path::join`. -/
def join (p q : Path) : Path :=
  if q.isAbsolute ∨ p.components = [] then q
  else ⟨p.components ++ q.components.filter (· ≠ .curDir), q.trailing || q.components.isEmpty⟩

/-- `Path::parent`. -/
def parent (p : Path) : Option Path :=
  match p.components.getLast? with
  | none | some .rootDir => none
  | some _ => some ⟨p.components.dropLast, false⟩

/-- `Path::file_name`. -/
def fileName (p : Path) : Option String :=
  match p.components.getLast? with
  | some (.normal name) => some name
  | _ => none

/-- `Path::file_stem`: the file name without what follows its last dot. -/
def fileStem (p : Path) : Option String :=
  p.fileName.map fun name =>
    let stem := (name.toList.rdropWhile (· ≠ '.')).dropLast
    if stem = [] then name else String.ofList stem

/-- `Path::with_extension`, for an extension that is not empty. -/
def withExtension (p : Path) (extension : String) : Path :=
  match p.fileStem with
  | some stem => ⟨p.components.dropLast ++ [.normal (stem ++ "." ++ extension)], false⟩
  | none => p

/-- The path of names from the root. -/
def ofNames (names : List String) : Path := ⟨.rootDir :: names.map .normal, false⟩

/-- The components that the file system follows; a slash at the end is as a dot. -/
def steps (p : Path) : List Component := p.components ++ if p.trailing then [.curDir] else []

/-- The path and the paths that it begins with, the shortest first. -/
def ancestors (p : Path) : List Path := p.components.inits.tail.map fun cs => ⟨cs, false⟩

theorem components_ofNames_append (names : List String) (name : String) :
    (ofNames (names ++ [name])).components = (ofNames names).components ++ [.normal name] := by
  unfold ofNames
  rw [List.map_append, List.map_singleton, List.cons_append]

theorem ancestors_ofNames (names : List String) :
    (ofNames names).ancestors = names.inits.map ofNames := by
  unfold ancestors ofNames
  rw [List.inits_cons, List.tail_cons, List.map_map, List.map_inits, List.map_map]
  rfl

theorem components_ofString_slash {s : List Char} (h : s ≠ []) :
    (ofString (String.ofList (s ++ ['/']))).components =
      (ofString (String.ofList s)).components := by
  have hsplit : (s ++ ['/']).splitOn '/' = s.splitOn '/' ++ [[]] :=
    List.splitOn_append_cons_self s []
  have hhead : (s.splitOn '/' ++ [[]]).head? = (s.splitOn '/').head? := by
    rw [List.head?_append, Option.or_of_isSome]
    rw [List.isSome_head?]
    exact List.splitOn_ne_nil '/' s
  unfold ofString
  simp only [String.toList_ofList]
  rw [if_neg h, if_neg (List.append_ne_nil_of_left_ne_nil h _), hsplit]
  have hlast : [([] : List Char)].filterMap ofPiece = [] := rfl
  simp only [hhead, List.filterMap_append, hlast, List.append_nil]

theorem components_ofString_rdropWhile {s : List Char} (h : s.rdropWhile (· == '/') ≠ []) :
    (ofString (String.ofList (s.rdropWhile (· == '/')))).components =
      (ofString (String.ofList s)).components := by
  induction s using List.reverseRecOn with
  | nil => rfl
  | append_singleton s c ih =>
    rw [List.rdropWhile_concat] at h ⊢
    by_cases hc : (c == '/') = true
    · rw [if_pos hc] at h ⊢
      rw [ih h, eq_of_beq hc, components_ofString_slash]
      rintro rfl
      exact h rfl
    · rw [if_neg hc]

theorem eq_or_of_ofPiece {piece : List Char} {c : Component} (h : ofPiece piece = some c) :
    c = .parentDir ∨ ∃ name, c = .normal name := by
  unfold ofPiece at h
  split_ifs at h
  · exact .inl (Option.some.inj h).symm
  · exact .inr ⟨_, (Option.some.inj h).symm⟩

theorem exists_names {cs : List Component} (h : ∀ c ∈ cs, ∃ name, c = .normal name) :
    ∃ names : List String, cs = names.map .normal := by
  induction cs with
  | nil => exact ⟨[], rfl⟩
  | cons c cs ih =>
    obtain ⟨name, rfl⟩ := h c List.mem_cons_self
    obtain ⟨names, rfl⟩ := ih fun c hc => h c (List.mem_cons_of_mem _ hc)
    exact ⟨name :: names, rfl⟩

/-- A path without `..`: names, perhaps after a slash or a dot. -/
def IsPlain (p : Path) : Prop :=
  ∃ names : List String, p.components = names.map .normal ∨
    p.components = .rootDir :: names.map .normal ∨ p.components = .curDir :: names.map .normal

theorem isPlain_ofString {s : String} (h : .parentDir ∉ (ofString s).components) :
    (ofString s).IsPlain := by
  unfold IsPlain
  unfold ofString at h ⊢
  dsimp only at h ⊢
  by_cases hempty : s.toList = []
  · rw [if_pos hempty]
    exact ⟨[], .inl rfl⟩
  · rw [if_neg hempty] at h ⊢
    have hnormal : ∀ c ∈ (s.toList.splitOn '/').filterMap ofPiece, ∃ name, c = .normal name := by
      intro c hc
      obtain ⟨piece, -, hpiece⟩ := List.mem_filterMap.mp hc
      refine (eq_or_of_ofPiece hpiece).resolve_left ?_
      rintro rfl
      exact h (List.mem_append_right _ hc)
    obtain ⟨names, hnames⟩ := exists_names hnormal
    refine ⟨names, ?_⟩
    dsimp only
    rw [hnames]
    split_ifs
    · exact .inr (.inl rfl)
    · exact .inr (.inr rfl)
    · exact .inl rfl

end Path

/-- The path consists of names from the root. -/
def IsNames (p : Path) (names : List String) : Prop :=
  p.components = .rootDir :: names.map .normal

theorem isNames_ofNames (names : List String) : IsNames (Path.ofNames names) names := rfl

theorem filter_ne_curDir (names : List String) :
    (names.map Component.normal).filter (· ≠ .curDir) = names.map .normal := by
  rw [List.filter_eq_self]
  intro c hc
  obtain ⟨name, -, rfl⟩ := List.mem_map.mp hc
  rfl

variable {names : List String}

theorem not_isAbsolute {q : Path} (hq : q.components = names.map .normal) :
    q.isAbsolute = false := by
  unfold Path.isAbsolute
  rw [hq]
  cases names with
  | nil => rfl
  | cons name names => rfl

theorem IsNames.isAbsolute {p : Path} (h : IsNames p names) : p.isAbsolute = true := by
  unfold Path.isAbsolute
  rw [h]
  rfl

theorem components_join {p q : Path} (hp : p.components ≠ []) (habs : q.isAbsolute = false)
    (hq : q.components.filter (· ≠ .curDir) = names.map .normal) :
    (p.join q).components = p.components ++ names.map .normal := by
  unfold Path.join
  rw [habs, if_neg (by rw [not_or]; exact ⟨Bool.false_ne_true, hp⟩), hq]

theorem IsNames.join {p q : Path} {names names' : List String} (hp : IsNames p names)
    (hq : q.components = names'.map .normal) : IsNames (p.join q) (names ++ names') := by
  have hne : p.components ≠ [] := by
    rw [hp]
    exact List.cons_ne_nil _ _
  unfold IsNames
  rw [components_join hne (not_isAbsolute hq) (by rw [hq, filter_ne_curDir]), hp, List.map_append,
    List.cons_append]

theorem Path.IsPlain.isNames_or {p : Path} (h : p.IsPlain) :
    (∃ names, IsNames p names) ∨ p.isAbsolute = false ∧
      ∃ names : List String, p.components.filter (· ≠ .curDir) = names.map .normal := by
  obtain ⟨names, hnames | hnames | hnames⟩ := h
  · exact .inr ⟨not_isAbsolute hnames, names, by rw [hnames, filter_ne_curDir]⟩
  · exact .inl ⟨names, hnames⟩
  · refine .inr ⟨by unfold Path.isAbsolute; rw [hnames]; rfl, names, ?_⟩
    rw [hnames, List.filter_cons_of_neg (by decide), filter_ne_curDir]

theorem stripPrefix_of_append {p base : Path} {cs : List Component}
    (h : p.components = base.components ++ cs) : p.stripPrefix base = some ⟨cs, false⟩ := by
  have hstarts : p.startsWith base = true := by
    unfold Path.startsWith
    rw [List.isPrefixOf_iff_prefix]
    exact ⟨cs, h.symm⟩
  unfold Path.stripPrefix
  rw [if_pos hstarts, h, List.drop_left]

theorem IsNames.stripPrefix {p base rest : Path} (hp : IsNames p names)
    (hbase : base.components ≠ []) (h : p.stripPrefix base = some rest) :
    ∃ names' : List String, rest.components = names'.map .normal := by
  unfold Path.stripPrefix at h
  split_ifs at h
  obtain rfl := Option.some.inj h
  cases hcs : base.components with
  | nil => exact absurd hcs hbase
  | cons c cs =>
    refine ⟨names.drop cs.length, ?_⟩
    dsimp only
    rw [hp, List.length_cons, List.drop_succ_cons, List.map_drop]

end Paths
