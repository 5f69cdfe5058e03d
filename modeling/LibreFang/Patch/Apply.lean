import LibreFang.Lib.Slices
import LibreFang.Lib.TextLines

/-!
# Patches of files

A patch has operations on files; an update has hunks, and each hunk replaces lines of the file.

* `Hunk`, `PatchOp`; **`parsePatch`**: the reader, with the state `HunkState` of a hunk's body.
* `findAnchor`, `findAnchorFuzzy`: where lines stand in a file.
* `applyHunk`: one hunk; **`applyHunks`**: all hunks of an update.
* **`lined_parsePatch`**: no line of a hunk that is read has a newline.
-/

namespace LibreFang.Patch

open Text TextLines Slices

/-- A line of text. -/
abbrev Line := List Char

/-- `Hunk`. -/
structure Hunk where
  contextBefore : List Line := []
  oldLines : List Line := []
  newLines : List Line := []
  contextAfter : List Line := []
  deriving DecidableEq, Repr

/-- `PatchOp`. -/
inductive PatchOp
  | addFile (path content : List Char)
  | updateFile (path : List Char) (moveTo : Option (List Char)) (hunks : List Hunk)
  | deleteFile (path : List Char)
  deriving DecidableEq, Repr

/-- The hunks of an operation. -/
def PatchOp.hunks : PatchOp → List Hunk
  | updateFile _ _ hunks => hunks
  | addFile _ _ | deleteFile _ => []

/-! ## The reader -/

/-- A line starts with a marker, behind blanks. -/
def isMarker (marker : String) (l : Line) : Bool := marker.toList.isPrefixOf (trim l)

/-- What the loop over the body of a hunk has read. -/
structure HunkState where
  hunk : Hunk := {}
  inChange : Bool := false
  pastChange : Bool := false
  deriving DecidableEq, Repr

/-- A line of context stands before the change or after it. -/
def HunkState.context (st : HunkState) (text : Line) : HunkState :=
  if st.inChange || st.pastChange then
    ⟨{ st.hunk with contextAfter := st.hunk.contextAfter ++ [text] }, false, true⟩
  else { st with hunk := { st.hunk with contextBefore := st.hunk.contextBefore ++ [text] } }

/-- One line of the body of a hunk. -/
def HunkState.read (st : HunkState) (hl : Line) : HunkState :=
  match stripStart ['-'] hl with
  | some stripped => ⟨{ st.hunk with oldLines := st.hunk.oldLines ++ [stripped] }, true, false⟩
  | none =>
    match stripStart ['+'] hl with
    | some stripped => ⟨{ st.hunk with newLines := st.hunk.newLines ++ [stripped] }, true, false⟩
    | none =>
      match stripStart [' '] hl with
      | some stripped => st.context stripped
      | none => if trim hl = [] then st.context [] else st.context hl

/-- The hunks of an update; `st` is the state of the hunk that is being read, if any. -/
def readHunks (st : Option HunkState) : List Line → List Hunk
  | [] => st.toList.map HunkState.hunk
  | l :: rest =>
    if isMarker "@@" l then st.toList.map HunkState.hunk ++ readHunks (some {}) rest
    else readHunks (st.map (·.read l)) rest

/-- The content of a file that is added. -/
def readContent : List Line → Except String (List Line)
  | [] => .ok []
  | l :: rest =>
    match stripStart ['+'] l with
    | some stripped => (readContent rest).map (stripped :: ·)
    | none =>
      if trim l ≠ [] then
        .error ("Expected '+' prefix in Add File content, got: " ++ String.ofList l)
      else readContent rest

/-- The lines of an operation end at the next marker. -/
def opLines (rest : List Line) : List Line := rest.takeWhile fun l => !isMarker "***" l

/-- The lines from the next marker on. -/
def afterOp (rest : List Line) : List Line := rest.dropWhile fun l => !isMarker "***" l

theorem length_afterOp (rest : List Line) : (afterOp rest).length ≤ rest.length :=
  (List.dropWhile_sublist _).length_le

/-- The path of an operation, with the path behind an arrow if there is one. -/
def splitMove (rest : List Char) : List Char × Option (List Char) :=
  match splitOnceStr "->".toList rest with
  | some (old, new) => (trim old, some (trim new))
  | none => (rest, none)

/-- The operations between the markers of a patch. -/
def parseOps (body : List Line) : Except String (List PatchOp) :=
  match body with
  | [] => .ok []
  | l :: rest =>
    let line := trim l
    if "*** Add File:".toList.isPrefixOf line then
      let path := trim (line.drop "*** Add File:".length)
      if path = [] then .error "Empty path in '*** Add File:'"
      else
        (readContent (opLines rest)).bind fun contentLines =>
          (parseOps (afterOp rest)).map (.addFile path (unlines contentLines) :: ·)
    else if "*** Update File:".toList.isPrefixOf line then
      let target := splitMove (trim (line.drop "*** Update File:".length))
      if target.1 = [] then .error "Empty path in '*** Update File:'"
      else
        let hunks := readHunks none (opLines rest)
        if hunks = [] then
          .error ("Update File '" ++ String.ofList target.1 ++ "' has no hunks")
        else (parseOps (afterOp rest)).map (.updateFile target.1 target.2 hunks :: ·)
    else if "*** Delete File:".toList.isPrefixOf line then
      let path := trim (line.drop "*** Delete File:".length)
      if path = [] then .error "Empty path in '*** Delete File:'"
      else (parseOps rest).map (.deleteFile path :: ·)
    else if line = [] then parseOps rest
    else .error ("Unexpected line in patch: " ++ String.ofList line)
termination_by body.length
decreasing_by
  all_goals
    have := length_afterOp rest
    simp only [List.length_cons]
    omega

/-- `slice::rposition`. -/
def rposition (p : Line → Bool) (ls : List Line) : Option ℕ :=
  (ls.reverse.findIdx? p).map (ls.length - 1 - ·)

/-- `parse_patch`. -/
def parsePatch (input : List Char) : Except String (List PatchOp) :=
  let ls := lines input
  match ls.findIdx? fun l => trim l = "*** Begin Patch".toList with
  | none => .error "Missing '*** Begin Patch' marker"
  | some first =>
    match rposition (fun l => trim l = "*** End Patch".toList) ls with
    | none => .error "Missing '*** End Patch' marker"
    | some last =>
      if last ≤ first then .error "'*** End Patch' must come after '*** Begin Patch'"
      else
        (parseOps ((ls.take last).drop (first + 1))).bind fun ops =>
          if ops = [] then .error "Patch contains no operations" else .ok ops

/-! ## Hunks applied -/

/-- The first place where lines stand in a file, by what `norm` makes of them. -/
def findBy (norm : Line → Line) (fileLines anchor : List Line) : Option ℕ :=
  if anchor = [] then some fileLines.length
  else if fileLines.length < anchor.length then none
  else
    (List.range (fileLines.length - anchor.length + 1)).find? fun start =>
      ((fileLines.drop start).take anchor.length).map norm == anchor.map norm

/-- `find_anchor`. -/
def findAnchor (fileLines anchor : List Line) : Option ℕ := findBy id fileLines anchor

/-- `find_anchor_fuzzy`. -/
def findAnchorFuzzy (fileLines anchor : List Line) : Option ℕ := findBy trimEnd fileLines anchor

/-- What a hunk looks for: its context and its old lines. -/
def Hunk.anchor (hunk : Hunk) : List Line := hunk.contextBefore ++ hunk.oldLines

/-- Where a hunk is applied. -/
def position (fileLines : List Line) (hunk : Hunk) : Option ℕ :=
  (findAnchor fileLines hunk.anchor).or (findAnchorFuzzy fileLines hunk.anchor)

/-- One round of the loop of `apply_hunks`. -/
def applyHunk (fileLines : List Line) (hunk : Hunk) : Option (List Line) :=
  if hunk.anchor.isEmpty && hunk.oldLines.isEmpty then some (fileLines ++ hunk.newLines)
  else
    (position fileLines hunk).map fun pos =>
      fileLines.take pos ++ (hunk.contextBefore ++ hunk.newLines) ++
        fileLines.drop (pos + (hunk.contextBefore.length + hunk.oldLines.length))

/-- The loop of `apply_hunks`. -/
def applyAll (idx : ℕ) (fileLines : List Line) : List Hunk → Except String (List Line)
  | [] => .ok fileLines
  | hunk :: hunks =>
    match applyHunk fileLines hunk with
    | some fileLines => applyAll (idx + 1) fileLines hunks
    | none =>
      .error ("Hunk " ++ toString (idx + 1) ++ " failed: could not find context/old lines in file")

/-- The text of the lines that are left; `trailing` if the file ended with a newline. -/
def finish (trailing : Bool) (fileLines : List Line) : List Char :=
  let result := unlines fileLines
  if trailing && result.getLast? != some '\n' then result ++ ['\n'] else result

/-- `apply_hunks`. -/
def applyHunks (content : List Char) (hunks : List Hunk) : Except String (List Char) :=
  (applyAll 0 (lines content) hunks).map (finish (content.getLast? == some '\n'))

/-! ## Lines without newlines -/

/-- No line of a hunk has a newline. -/
structure Hunk.Lined (hunk : Hunk) : Prop where
  contextBefore : ∀ l ∈ hunk.contextBefore, '\n' ∉ l
  oldLines : ∀ l ∈ hunk.oldLines, '\n' ∉ l
  newLines : ∀ l ∈ hunk.newLines, '\n' ∉ l
  contextAfter : ∀ l ∈ hunk.contextAfter, '\n' ∉ l

theorem lined_empty : Hunk.Lined {} := by constructor <;> exact fun _ h => absurd h List.not_mem_nil

theorem forall_mem_concat {ls : List Line} (h : ∀ l ∈ ls, '\n' ∉ l) {text : Line}
    (htext : '\n' ∉ text) : ∀ l ∈ ls ++ [text], '\n' ∉ l :=
  List.forall_mem_append.mpr ⟨h, List.forall_mem_singleton.mpr htext⟩

theorem lined_context {st : HunkState} (h : st.hunk.Lined) {text : Line} (htext : '\n' ∉ text) :
    (st.context text).hunk.Lined := by
  unfold HunkState.context
  split_ifs
  · exact { h with contextAfter := forall_mem_concat h.contextAfter htext }
  · exact { h with contextBefore := forall_mem_concat h.contextBefore htext }

theorem lined_read {st : HunkState} (h : st.hunk.Lined) {hl : Line} (hline : '\n' ∉ hl) :
    (st.read hl).hunk.Lined := by
  have hrest {start t : List Char} (hstrip : stripStart start hl = some t) : '\n' ∉ t := by
    rw [stripStart_eq_some hstrip, List.mem_append, not_or] at hline
    exact hline.2
  unfold HunkState.read
  cases hminus : stripStart ['-'] hl with
  | some t => exact { h with oldLines := forall_mem_concat h.oldLines (hrest hminus) }
  | none =>
    cases hplus : stripStart ['+'] hl with
    | some t => exact { h with newLines := forall_mem_concat h.newLines (hrest hplus) }
    | none =>
      cases hblank : stripStart [' '] hl with
      | some t => exact lined_context h (hrest hblank)
      | none =>
        simp only
        split_ifs
        · exact lined_context h List.not_mem_nil
        · exact lined_context h hline

theorem lined_readHunks {st : Option HunkState} (hst : ∀ s ∈ st, s.hunk.Lined) {ls : List Line}
    (hls : ∀ l ∈ ls, '\n' ∉ l) : ∀ hunk ∈ readHunks st ls, hunk.Lined := by
  have hclose : ∀ hunk ∈ st.toList.map HunkState.hunk, hunk.Lined :=
    List.forall_mem_map.mpr fun s hs => hst s (Option.mem_toList.mp hs)
  induction ls generalizing st with
  | nil => exact hclose
  | cons l ls ih =>
    rw [List.forall_mem_cons] at hls
    rw [readHunks]
    split_ifs
    · refine List.forall_mem_append.mpr ⟨hclose, ih ?_ hls.2 ?_⟩
      · intro s hs
        obtain rfl := Option.mem_some.mp hs
        exact lined_empty
      · exact List.forall_mem_singleton.mpr lined_empty
    · have hread : ∀ s ∈ st.map (·.read l), s.hunk.Lined := by
        intro s hs
        obtain ⟨s₀, hs₀, rfl⟩ := Option.map_eq_some_iff.mp hs
        exact lined_read (hst s₀ hs₀) hls.1
      exact ih hread hls.2 (List.forall_mem_map.mpr fun s hs => hread s (Option.mem_toList.mp hs))

theorem lined_parseOps {body : List Line} (hbody : ∀ l ∈ body, '\n' ∉ l) {ops : List PatchOp}
    (h : parseOps body = .ok ops) : ∀ op ∈ ops, ∀ hunk ∈ op.hunks, hunk.Lined := by
  have hafter {rest : List Line} (hrest : ∀ l ∈ rest, '\n' ∉ l) : ∀ l ∈ afterOp rest, '\n' ∉ l :=
    fun l hl => hrest l ((List.dropWhile_sublist _).subset hl)
  have hcons {op : PatchOp} {rest : Except String (List PatchOp)} {ops : List PatchOp}
      (hmap : rest.map (op :: ·) = .ok ops) (hop : ∀ hunk ∈ op.hunks, hunk.Lined)
      (hrest : ∀ ops', rest = .ok ops' → ∀ op ∈ ops', ∀ hunk ∈ op.hunks, hunk.Lined) :
      ∀ op ∈ ops, ∀ hunk ∈ op.hunks, hunk.Lined := by
    cases rest with
    | error e => cases hmap
    | ok ops' =>
      obtain rfl := Except.ok.inj hmap
      exact List.forall_mem_cons.mpr ⟨hop, hrest ops' rfl⟩
  fun_induction parseOps body generalizing ops with
  | case1 =>
    obtain rfl := Except.ok.inj h
    exact fun op hop => absurd hop List.not_mem_nil
  | case3 l rest line hadd path hpath =>
    rename_i ih
    rw [List.forall_mem_cons] at hbody
    cases hcontent : readContent (opLines rest) with
    | error e =>
      rw [hcontent] at h
      cases h
    | ok contentLines =>
      rw [hcontent] at h
      refine hcons h (fun hunk hhunk => absurd hhunk List.not_mem_nil) fun ops' hops => ?_
      exact ih (hafter hbody.2) hops
  | case6 l rest line hadd hupdate target htarget hunks hhunks =>
    rename_i ih
    rw [List.forall_mem_cons] at hbody
    refine hcons h (lined_readHunks (fun s hs => absurd hs (Option.not_mem_none s)) ?_) ?_
    · exact fun l hl => hbody.2 l ((List.takeWhile_sublist _).subset hl)
    · exact fun ops' hops => ih (hafter hbody.2) hops
  | case8 l rest line hadd hupdate hdelete path hpath =>
    rename_i ih
    rw [List.forall_mem_cons] at hbody
    refine hcons h (fun hunk hhunk => absurd hhunk List.not_mem_nil) fun ops' hops => ?_
    exact ih hbody.2 hops
  | case9 l rest line hadd hupdate hdelete hblank ih =>
    rw [List.forall_mem_cons] at hbody
    exact ih hbody.2 h
  | case2 | case4 | case5 | case7 | case10 => cases h

theorem exists_of_parsePatch {input : List Char} {ops : List PatchOp}
    (h : parsePatch input = .ok ops) : ∃ first last,
      (lines input).findIdx? (fun l => trim l = "*** Begin Patch".toList) = some first ∧
        rposition (fun l => trim l = "*** End Patch".toList) (lines input) = some last ∧
          parseOps (((lines input).take last).drop (first + 1)) = .ok ops := by
  unfold parsePatch at h
  simp only at h
  split at h
  next => cases h
  next first hfirst =>
    split at h
    next => cases h
    next last hlast =>
      split_ifs at h with hle
      refine ⟨first, last, hfirst, hlast, ?_⟩
      cases hops : parseOps (((lines input).take last).drop (first + 1)) with
      | error e =>
        rw [hops] at h
        cases h
      | ok ops' =>
        rw [hops] at h
        change (if ops' = [] then _ else _) = _ at h
        split_ifs at h
        exact h

/-- **No hunk that is read has newlines in its lines.** -/
theorem lined_parsePatch {input : List Char} {ops : List PatchOp} (h : parsePatch input = .ok ops) :
    ∀ op ∈ ops, ∀ hunk ∈ op.hunks, hunk.Lined := by
  obtain ⟨first, last, -, -, hops⟩ := exists_of_parsePatch h
  refine lined_parseOps (fun l hl => ?_) hops
  exact not_mem_of_mem_lines (List.mem_of_mem_take (List.mem_of_mem_drop hl))

/-! ## Where a hunk is applied -/

/-- Lines match others up to blanks at their ends. -/
def Matches (ls anchor : List Line) : Prop := ls.map trimEnd = anchor.map trimEnd

theorem Matches.length_eq {ls anchor : List Line} (h : Matches ls anchor) :
    ls.length = anchor.length := by
  have hlength := congrArg List.length h
  rwa [List.length_map, List.length_map] at hlength

theorem findBy_spec {norm : Line → Line} {fileLines anchor : List Line} {pos : ℕ}
    (h : findBy norm fileLines anchor = some pos) : pos + anchor.length ≤ fileLines.length ∧
      ((fileLines.drop pos).take anchor.length).map norm = anchor.map norm := by
  unfold findBy at h
  split_ifs at h with hempty hlong
  · obtain rfl := Option.some.inj h
    rw [hempty]
    exact ⟨le_rfl, by rw [List.length_nil, List.take_zero]⟩
  · have hequal := List.find?_some h
    refine ⟨?_, eq_of_beq hequal⟩
    have hmem := List.mem_range.mp (List.mem_of_find?_eq_some h)
    omega

theorem isSome_findBy {norm : Line → Line} {fileLines anchor : List Line}
    (h : anchor <:+: fileLines) : (findBy norm fileLines anchor).isSome = true := by
  obtain ⟨pre, post, rfl⟩ := h
  unfold findBy
  split_ifs with hempty hlong
  · rfl
  · simp only [List.length_append] at hlong
    omega
  · rw [List.find?_isSome]
    refine ⟨pre.length, List.mem_range.mpr ?_, ?_⟩
    · simp only [List.length_append]
      omega
    · rw [List.append_assoc, List.drop_left, List.take_left]
      exact beq_self_eq_true _

theorem position_spec {fileLines : List Line} {hunk : Hunk} {pos : ℕ}
    (h : position fileLines hunk = some pos) : ∃ pre mid post,
      fileLines = pre ++ mid ++ post ∧ pre.length = pos ∧ Matches mid hunk.anchor := by
  have hfound : pos + hunk.anchor.length ≤ fileLines.length ∧
      Matches ((fileLines.drop pos).take hunk.anchor.length) hunk.anchor := by
    rcases Option.or_eq_some_iff.mp h with h | ⟨-, h⟩
    · obtain ⟨hle, heq⟩ := findBy_spec h
      rw [List.map_id, List.map_id] at heq
      exact ⟨hle, by rw [heq]; exact rfl⟩
    · exact findBy_spec h
  refine ⟨fileLines.take pos, _, (fileLines.drop pos).drop hunk.anchor.length, ?_, ?_, hfound.2⟩
  · rw [List.append_assoc, List.take_append_drop, List.take_append_drop]
  · exact List.length_take_of_le (by omega)

/-- **A hunk replaces lines that match** its context and its old lines by its context and its new
lines. -/
theorem applyHunk_spec {fileLines fileLines' : List Line} {hunk : Hunk}
    (h : applyHunk fileLines hunk = some fileLines') : ∃ pre mid post,
      fileLines = pre ++ mid ++ post ∧ Matches mid hunk.anchor ∧
        fileLines' = pre ++ (hunk.contextBefore ++ hunk.newLines) ++ post := by
  unfold applyHunk at h
  split_ifs at h with hinsert
  · rw [Bool.and_eq_true, List.isEmpty_iff, List.isEmpty_iff] at hinsert
    obtain rfl := Option.some.inj h
    have hcontext : hunk.contextBefore = [] := (List.append_eq_nil_iff.mp hinsert.1).1
    refine ⟨fileLines, [], [], by simp, ?_, by simp [hcontext]⟩
    rw [hinsert.1]
    exact rfl
  · obtain ⟨pos, hpos, rfl⟩ := Option.map_eq_some_iff.mp h
    obtain ⟨pre, mid, post, rfl, rfl, hmatch⟩ := position_spec hpos
    refine ⟨pre, mid, post, rfl, hmatch, ?_⟩
    have hlength : hunk.contextBefore.length + hunk.oldLines.length = mid.length := by
      rw [hmatch.length_eq, Hunk.anchor, List.length_append]
    have htake : (pre ++ mid ++ post).take pre.length = pre := by
      rw [List.append_assoc, List.take_left]
    rw [hlength, htake, ← List.length_append, List.drop_left]

end LibreFang.Patch
