import Mathlib.Data.List.Pairwise
import LibreFang.Patch.Apply

/-!
# What a hunk means

The body of a hunk is a list of lines of context, old lines and new lines. What it means: the
context and the old lines stand together in the file, and become the context and the new lines.

* `BodyLine`, `patchLines`: a patch of one hunk; `oldSide`, `newSide`; `MeansDiff`.
* **`meansDiff_iff`**: a hunk means what its body says exactly when the patch cannot be read, or no
  line of its body is a marker and no context stands behind a change.
-/

namespace LibreFang.Patch

open Text TextLines Slices

/-! ## Bodies -/

/-- What a line of a body is. -/
inductive LineKind
  | context
  | old
  | new
  deriving DecidableEq, Repr

/-- A line of the body of a hunk. -/
structure BodyLine where
  kind : LineKind
  text : Line
  deriving DecidableEq, Repr

/-- The line of the patch. -/
def BodyLine.render (l : BodyLine) : Line :=
  match l.kind with
  | .context => ' ' :: l.text
  | .old => '-' :: l.text
  | .new => '+' :: l.text

/-- The lines of a patch that updates one file by one hunk. -/
def patchLines (path : List Char) (body : List BodyLine) : List Line :=
  ["*** Begin Patch".toList, "*** Update File:".toList ++ path, "@@".toList] ++
    body.map BodyLine.render ++ ["*** End Patch".toList]

/-- The texts of the lines of some kinds. -/
def textsOf (p : LineKind → Bool) (body : List BodyLine) : List Line :=
  (body.filter fun l => p l.kind).map BodyLine.text

/-- What a hunk replaces: its context and its old lines. -/
def oldSide (body : List BodyLine) : List Line := textsOf (· != .new) body

/-- What a hunk puts there: its context and its new lines. -/
def newSide (body : List BodyLine) : List Line := textsOf (· != .old) body

/-- The result has the new side where the file has the old side, up to blanks at the ends of
lines. -/
def Replaces (content result : List Char) (body : List BodyLine) : Prop :=
  ∃ pre mid post, lines content = pre ++ mid ++ post ∧ Matches mid (oldSide body) ∧
    result = finish (content.getLast? == some '\n') (pre ++ newSide body ++ post)

/-- **A patch means what the body of its hunk says**: if it can be read and its hunks be applied to
a file, the old side is replaced by the new side. -/
def MeansDiff (input : List Char) (body : List BodyLine) : Prop :=
  ∀ ops, parsePatch input = .ok ops → ∀ op ∈ ops.head?, ∀ content result,
    applyHunks content op.hunks = .ok result → Replaces content result body

/-- No line of the body reads as a marker, and no context stands behind a change. -/
def Plain (body : List BodyLine) : Prop :=
  (∀ l ∈ body, isMarker "@@" l.render = false ∧ isMarker "***" l.render = false) ∧
    body.Pairwise fun a b => b.kind = .context → a.kind = .context

instance (body : List BodyLine) : Decidable (Plain body) :=
  inferInstanceAs (Decidable ((∀ l ∈ body, isMarker "@@" l.render = false ∧
    isMarker "***" l.render = false) ∧
      body.Pairwise fun a b => b.kind = .context → a.kind = .context))

theorem trimEnd_append_cons {c : Char} (hc : isWhitespace c = false) (s t : List Char) :
    trimEnd (s ++ c :: t) = s ++ c :: trimEnd t := by
  have hback : (t.reverse ++ c :: s.reverse).dropWhile isWhitespace =
      t.reverse.dropWhile isWhitespace ++ c :: s.reverse := by
    rw [List.dropWhile_append]
    split_ifs with hempty
    · rw [List.isEmpty_iff.mp hempty, List.dropWhile_cons_of_neg (by rw [hc]; decide)]
      rfl
    · rfl
  unfold trimEnd List.rdropWhile
  rw [List.reverse_append, List.reverse_cons, List.append_assoc, List.singleton_append, hback,
    List.reverse_append, List.reverse_cons, List.reverse_reverse]
  simp

theorem trim_cons {c : Char} (hc : isWhitespace c = false) (t : List Char) :
    trim (c :: t) = c :: trimEnd t := by
  have hstart : trimStart (c :: t) = c :: t := by
    unfold trimStart
    rw [List.dropWhile_cons_of_neg (by rw [hc]; decide)]
  unfold trim
  rw [hstart]
  exact trimEnd_append_cons hc [] t

theorem isMarker_change {l : BodyLine} (h : l.kind ≠ .context) :
    isMarker "@@" l.render = false ∧ isMarker "***" l.render = false := by
  unfold isMarker BodyLine.render
  cases hkind : l.kind with
  | context => exact absurd hkind h
  | old =>
    simp only
    rw [trim_cons (by decide)]
    exact ⟨rfl, rfl⟩
  | new =>
    simp only
    rw [trim_cons (by decide)]
    exact ⟨rfl, rfl⟩

/-! ## What is read of a body -/

theorem read_old (st : HunkState) (text : Line) : st.read ('-' :: text) =
    ⟨{ st.hunk with oldLines := st.hunk.oldLines ++ [text] }, true, false⟩ := rfl

theorem read_new (st : HunkState) (text : Line) : st.read ('+' :: text) =
    ⟨{ st.hunk with newLines := st.hunk.newLines ++ [text] }, true, false⟩ := rfl

theorem read_context (st : HunkState) (text : Line) :
    st.read (' ' :: text) = st.context text := rfl

/-- The loop is behind a change. -/
def HunkState.changed (st : HunkState) : Bool := st.inChange || st.pastChange

/-- What `Plain` says of the lines that are left of a body. -/
structure PlainFrom (st : HunkState) (body : List BodyLine) : Prop where
  unmarked : ∀ l ∈ body, isMarker "@@" l.render = false ∧ isMarker "***" l.render = false
  sorted : body.Pairwise fun a b => b.kind = .context → a.kind = .context
  behind : st.changed = true → ∀ l ∈ body, l.kind ≠ .context

theorem plainFrom_nil (st : HunkState) : PlainFrom st [] :=
  ⟨fun _ h => absurd h List.not_mem_nil, .nil, fun _ _ h => absurd h List.not_mem_nil⟩

theorem plainFrom_start {body : List BodyLine} : PlainFrom {} body ↔ Plain body :=
  ⟨fun h => ⟨h.unmarked, h.sorted⟩, fun h => ⟨h.1, h.2, fun hfalse => absurd hfalse (by decide)⟩⟩

theorem changed_read {st : HunkState} {l : BodyLine} (h : l.kind ≠ .context) :
    (st.read l.render).changed = true := by
  unfold BodyLine.render
  cases hkind : l.kind with
  | context => exact absurd hkind h
  | old => rfl
  | new => rfl

theorem plainFrom_cons_change {st : HunkState} {l : BodyLine} {body : List BodyLine}
    (h : l.kind ≠ .context) : PlainFrom st (l :: body) ↔ PlainFrom (st.read l.render) body := by
  constructor
  · intro hplain
    have hsorted := List.pairwise_cons.mp hplain.sorted
    exact ⟨fun m hm => hplain.unmarked m (List.mem_cons_of_mem l hm), hsorted.2,
      fun _ m hm hcontext => h (hsorted.1 m hm hcontext)⟩
  · intro hplain
    have hbehind := hplain.behind (changed_read h)
    refine ⟨List.forall_mem_cons.mpr ⟨isMarker_change h, hplain.unmarked⟩, ?_, ?_⟩
    · exact List.pairwise_cons.mpr ⟨fun m hm hcontext => absurd hcontext (hbehind m hm),
        hplain.sorted⟩
    · exact fun _ => List.forall_mem_cons.mpr ⟨h, hbehind⟩

theorem read_unchanged {st : HunkState} {l : BodyLine} (h : l.kind = .context)
    (hst : st.changed = false) : st.read l.render =
      { st with hunk := { st.hunk with contextBefore := st.hunk.contextBefore ++ [l.text] } } := by
  unfold BodyLine.render
  rw [h]
  unfold HunkState.changed at hst
  exact if_neg (by rw [hst]; decide)

theorem plainFrom_cons_context {st : HunkState} {l : BodyLine} {body : List BodyLine}
    (h : l.kind = .context) (hst : st.changed = false) :
    PlainFrom st (l :: body) ↔
      (isMarker "@@" l.render = false ∧ isMarker "***" l.render = false) ∧
        PlainFrom (st.read l.render) body := by
  have hread : (st.read l.render).changed = false := by
    rw [read_unchanged h hst]
    exact hst
  constructor
  · intro hplain
    obtain ⟨hl, hbody⟩ := List.forall_mem_cons.mp hplain.unmarked
    refine ⟨hl, hbody, (List.pairwise_cons.mp hplain.sorted).2, fun hchanged => ?_⟩
    rw [hread] at hchanged
    cases hchanged
  · rintro ⟨hl, hplain⟩
    refine ⟨List.forall_mem_cons.mpr ⟨hl, hplain.unmarked⟩, ?_, fun hchanged => ?_⟩
    · exact List.pairwise_cons.mpr ⟨fun m _ _ => h, hplain.sorted⟩
    · rw [hst] at hchanged
      cases hchanged

/-- **What is read of a body whose context stands before its changes**: one hunk with its lines. -/
theorem readHunks_of_plain {st : HunkState} {body : List BodyLine} (h : PlainFrom st body) :
    readHunks (some st) (opLines (body.map BodyLine.render)) =
      [⟨st.hunk.contextBefore ++ textsOf (· == .context) body,
        st.hunk.oldLines ++ textsOf (· == .old) body, st.hunk.newLines ++ textsOf (· == .new) body,
        st.hunk.contextAfter⟩] := by
  induction body generalizing st with
  | nil =>
    simp only [textsOf, List.filter_nil, List.map_nil, List.append_nil]
    rfl
  | cons l body ih =>
    obtain ⟨⟨hat, hstars⟩, -⟩ := List.forall_mem_cons.mp h.unmarked
    have hop : opLines ((l :: body).map BodyLine.render) =
        l.render :: opLines (body.map BodyLine.render) := by
      unfold opLines
      rw [List.map_cons, List.takeWhile_cons_of_pos (by rw [hstars]; rfl)]
    rw [hop, readHunks, if_neg (by rw [hat]; decide), Option.map_some]
    by_cases hkind : l.kind = .context
    · have hst : st.changed = false := by
        by_contra hchanged
        exact h.behind (Bool.not_eq_false _ ▸ hchanged) l List.mem_cons_self hkind
      rw [ih ((plainFrom_cons_context hkind hst).mp h).2, read_unchanged hkind hst]
      simp [textsOf, hkind]
    · rw [ih ((plainFrom_cons_change hkind).mp h)]
      unfold BodyLine.render
      cases hold : l.kind with
      | context => exact absurd hold hkind
      | old => simp [textsOf, hold, read_old]
      | new => simp [textsOf, hold, read_new]

/-! ## Bodies that are not plain -/

/-- How many lines hunks look for. -/
def sought (hunks : List Hunk) : ℕ := (hunks.map fun hunk => hunk.anchor.length).sum

theorem sought_append (a b : List Hunk) : sought (a ++ b) = sought a + sought b := by
  unfold sought
  rw [List.map_append, List.sum_append]

theorem length_oldSide_cons (l : BodyLine) (body : List BodyLine) :
    (oldSide (l :: body)).length = (oldSide body).length + if l.kind = .new then 0 else 1 := by
  unfold oldSide textsOf
  rw [List.length_map, List.length_map, List.filter_cons]
  cases l.kind <;> rfl

theorem length_anchor_read (st : HunkState) (l : BodyLine) :
    (st.read l.render).hunk.anchor.length =
      st.hunk.anchor.length +
        if l.kind = .old ∨ l.kind = .context ∧ st.changed = false then 1 else 0 := by
  unfold BodyLine.render
  cases hkind : l.kind with
  | context =>
    simp only [read_context, HunkState.context, HunkState.changed]
    cases hchanged : st.inChange || st.pastChange with
    | true => simp [Hunk.anchor]
    | false => simp [Hunk.anchor, Nat.add_assoc]
  | old => simp [read_old, Hunk.anchor, Nat.add_assoc]
  | new => simp [read_new, Hunk.anchor]

/-- **The hunks that are read look for no more lines than the old side has**, and for fewer if the
body is not plain. -/
theorem sought_readHunks (st : HunkState) (body : List BodyLine) :
    let hunks := readHunks (some st) (opLines (body.map BodyLine.render))
    sought hunks ≤ st.hunk.anchor.length + (oldSide body).length ∧
      (¬ PlainFrom st body → sought hunks < st.hunk.anchor.length + (oldSide body).length) := by
  induction body generalizing st with
  | nil => exact ⟨le_rfl, fun h => absurd (plainFrom_nil st) h⟩
  | cons l body ih =>
    simp only
    rw [length_oldSide_cons, List.map_cons]
    by_cases hstars : isMarker "***" l.render = true
    · have hcontext : l.kind = .context := by
        by_contra hkind
        rw [(isMarker_change hkind).2] at hstars
        cases hstars
      have hop : opLines (l.render :: body.map BodyLine.render) = [] :=
        List.takeWhile_cons_of_neg (by rw [hstars]; decide)
      have hsought : sought (readHunks (some st) []) = st.hunk.anchor.length := Nat.add_zero _
      rw [hop, hsought, hcontext]
      simp only [reduceCtorEq, if_false]
      omega
    · have hop : opLines (l.render :: body.map BodyLine.render) =
          l.render :: opLines (body.map BodyLine.render) :=
        List.takeWhile_cons_of_pos (by simpa using hstars)
      rw [hop, readHunks]
      by_cases hat : isMarker "@@" l.render = true
      · have hcontext : l.kind = .context := by
          by_contra hkind
          rw [(isMarker_change hkind).1] at hat
          cases hat
        have hrest := (ih {}).1
        have hempty : ({} : HunkState).hunk.anchor.length = 0 := rfl
        have hclosed : sought ((some st).toList.map HunkState.hunk) = st.hunk.anchor.length :=
          Nat.add_zero _
        rw [if_pos hat, sought_append, hclosed, hcontext]
        simp only [reduceCtorEq, if_false]
        omega
      · rw [if_neg hat, Option.map_some]
        obtain ⟨hle, hlt⟩ := ih (st.read l.render)
        rw [length_anchor_read] at hle hlt
        by_cases hkind : l.kind = .context
        · cases hst : st.changed with
          | true =>
            rw [hkind, hst] at hle
            simp only [hkind, reduceCtorEq, false_or, and_false, if_false] at hle ⊢
            omega
          | false =>
            rw [hkind, hst] at hle hlt
            simp only [hkind, reduceCtorEq, and_self, or_true, if_true, if_false] at hle hlt ⊢
            refine ⟨by omega, fun hplain => ?_⟩
            have := hlt fun hrest => hplain ((plainFrom_cons_context hkind hst).mpr
              ⟨⟨by simpa using hat, by simpa using hstars⟩, hrest⟩)
            omega
        · rw [plainFrom_cons_change hkind]
          cases hold : l.kind with
          | context => exact absurd hold hkind
          | old =>
            simp only [hold, true_or, if_true, reduceCtorEq, if_false] at hle hlt ⊢
            exact ⟨by omega, fun h => by have := hlt h; omega⟩
          | new =>
            simp only [hold, reduceCtorEq, false_and, or_self, if_true, if_false] at hle hlt ⊢
            exact ⟨by omega, fun h => by have := hlt h; omega⟩

/-! ## Hunks applied to what they look for -/

theorem findBy_le {norm : Line → Line} {pre anchor post : List Line} (hne : anchor ≠ []) {pos : ℕ}
    (h : findBy norm (pre ++ anchor ++ post) anchor = some pos) : pos ≤ pre.length := by
  unfold findBy at h
  split_ifs at h with hempty hlong
  · exact absurd hempty hne
  · rw [List.find?_range_eq_some] at h
    by_contra hlt
    have hfirst := h.2.2 pre.length (not_le.mp hlt)
    rw [List.append_assoc, List.drop_left, List.take_left, beq_self_eq_true] at hfirst
    cases hfirst

theorem exists_applyHunk {hunk : Hunk} {rest ls : List Line} (h : hunk.anchor ++ rest <:+: ls) :
    ∃ ls', applyHunk ls hunk = some ls' ∧ rest <:+: ls' := by
  obtain ⟨pre, post, rfl⟩ := h
  have hstands : pre ++ (hunk.anchor ++ rest) ++ post = pre ++ hunk.anchor ++ (rest ++ post) := by
    simp only [List.append_assoc]
  rw [hstands]
  have hrest : rest <:+: rest ++ post := ⟨[], post, rfl⟩
  unfold applyHunk
  split_ifs with hinsert
  · refine ⟨_, rfl, hrest.trans (List.IsInfix.trans ?_ (List.prefix_append _ _).isInfix)⟩
    exact (List.suffix_append _ _).isInfix
  · have hne : hunk.anchor ≠ [] := by
      intro hempty
      refine hinsert ?_
      rw [hempty, (List.append_eq_nil_iff.mp hempty).2]
      rfl
    obtain ⟨pos, hpos⟩ := Option.isSome_iff_exists.mp
      (@isSome_findBy id (pre ++ hunk.anchor ++ (rest ++ post)) hunk.anchor ⟨pre, _, rfl⟩)
    have hposition : position (pre ++ hunk.anchor ++ (rest ++ post)) hunk = some pos := by
      unfold position findAnchor
      rw [hpos]
      rfl
    have hle := findBy_le hne hpos
    rw [hposition, Option.map_some, ← List.length_append, ← Hunk.anchor]
    refine ⟨_, rfl, hrest.trans (List.IsInfix.trans ?_ (List.suffix_append _ _).isInfix)⟩
    -- what stands behind the place that is wanted stands behind the one that is found
    have hdrop : (pre ++ hunk.anchor ++ (rest ++ post)).drop
        (pos + hunk.anchor.length + (pre.length - pos)) = rest ++ post := by
      have hsum : pos + hunk.anchor.length + (pre.length - pos) =
          (pre ++ hunk.anchor).length := by
        rw [List.length_append]
        omega
      rw [hsum, List.drop_left]
    have hsuffix := List.drop_suffix (pre.length - pos)
      ((pre ++ hunk.anchor ++ (rest ++ post)).drop (pos + hunk.anchor.length))
    rw [List.drop_drop, hdrop] at hsuffix
    exact hsuffix.isInfix

/-- **Hunks can be applied** where all that they look for stands together. -/
theorem exists_applyAll {hunks : List Hunk} {idx : ℕ} {ls : List Line}
    (h : hunks.flatMap Hunk.anchor <:+: ls) : ∃ ls', applyAll idx ls hunks = .ok ls' := by
  induction hunks generalizing idx ls with
  | nil => exact ⟨ls, rfl⟩
  | cons hunk hunks ih =>
    obtain ⟨ls₁, hstep, hrest⟩ := exists_applyHunk h
    rw [applyAll, hstep]
    exact ih hrest

theorem length_flatMap_anchor (hunks : List Hunk) :
    (hunks.flatMap Hunk.anchor).length = sought hunks := List.length_flatMap

/-! ## A patch of one hunk -/

theorem readHunks_ne_nil (st : HunkState) (ls : List Line) : readHunks (some st) ls ≠ [] := by
  induction ls generalizing st with
  | nil => exact List.cons_ne_nil _ _
  | cons l ls ih =>
    rw [readHunks]
    split_ifs
    · exact List.append_ne_nil_of_left_ne_nil (List.cons_ne_nil _ _) _
    · exact ih _

theorem trim_update (path : List Char) :
    trim ("*** Update File:".toList ++ path) = "*** Update File:".toList ++ trimEnd path := by
  have hsplit (t : List Char) : "*** Update File:".toList ++ t = '*' :: ("** Update File".toList ++
      ':' :: t) := rfl
  rw [hsplit, trim_cons (by decide), trimEnd_append_cons (by decide), hsplit]

theorem patchLines_markers (path : List Char) (body : List BodyLine) :
    (patchLines path body).findIdx? (fun l => trim l = "*** Begin Patch".toList) = some 0 ∧
      rposition (fun l => trim l = "*** End Patch".toList) (patchLines path body) =
        some (body.length + 3) ∧
      ((patchLines path body).take (body.length + 3)).drop 1 =
        ("*** Update File:".toList ++ path) :: "@@".toList :: body.map BodyLine.render := by
  unfold patchLines
  refine ⟨?_, ?_, ?_⟩
  · rw [List.cons_append, List.cons_append, List.findIdx?_cons, if_pos (by decide)]
  · unfold rposition
    rw [List.reverse_append, List.reverse_singleton, List.singleton_append, List.findIdx?_cons,
      if_pos (by decide), Option.map_some]
    simp
  · rw [List.take_append_of_le_length (by simp), List.take_of_length_le (by simp)]
    rfl

/-- The target of the update that a line names. -/
def targetOf (path : List Char) : List Char × Option (List Char) := splitMove (trim (trimEnd path))

theorem parseOps_update (path : List Char) (ls : List Line) :
    parseOps (("*** Update File:".toList ++ path) :: "@@".toList :: ls) =
      if (targetOf path).1 = [] then .error "Empty path in '*** Update File:'"
      else
        (parseOps (afterOp ls)).map (.updateFile (targetOf path).1 (targetOf path).2
          (readHunks (some {}) (opLines ls)) :: ·) := by
  have hadd : "*** Add File:".toList.isPrefixOf ("*** Update File:".toList ++ trimEnd path) =
      false := rfl
  have hupdate : "*** Update File:".toList.isPrefixOf
      ("*** Update File:".toList ++ trimEnd path) = true :=
    List.isPrefixOf_iff_prefix.mpr ⟨_, rfl⟩
  have hdrop : ("*** Update File:".toList ++ trimEnd path).drop "*** Update File:".length =
      trimEnd path := List.drop_left
  have htarget : splitMove (trim (trimEnd path)) = targetOf path := rfl
  have hop : opLines ("@@".toList :: ls) = "@@".toList :: opLines ls :=
    List.takeWhile_cons_of_pos (by decide)
  have hafter : afterOp ("@@".toList :: ls) = afterOp ls := List.dropWhile_cons_of_pos (by decide)
  have hread : readHunks none ("@@".toList :: opLines ls) = readHunks (some {}) (opLines ls) := by
    rw [readHunks, if_pos (by decide)]
    rfl
  rw [parseOps]
  simp only [trim_update, hadd, hupdate, hdrop, htarget, hop, hafter, hread, readHunks_ne_nil,
    Bool.false_eq_true, if_false, if_true]

/-- **What is read of a patch of one hunk**: if it can be read, its first operation has the hunks of
the body. -/
theorem hunks_of_parsePatch {input path : List Char} {body : List BodyLine}
    (h : lines input = patchLines path body) {ops : List PatchOp}
    (hops : parsePatch input = .ok ops) : ∃ op ∈ ops.head?,
      op.hunks = readHunks (some {}) (opLines (body.map BodyLine.render)) := by
  obtain ⟨first, last, hfirst, hlast, hparse⟩ := exists_of_parsePatch hops
  obtain ⟨hzero, hend, hbetween⟩ := patchLines_markers path body
  rw [h] at hfirst hlast hparse
  obtain rfl := Option.some.inj (hzero.symm.trans hfirst)
  obtain rfl := Option.some.inj (hend.symm.trans hlast)
  rw [Nat.zero_add, hbetween, parseOps_update] at hparse
  split_ifs at hparse
  cases hrest : parseOps (afterOp (body.map BodyLine.render)) with
  | error e =>
    rw [hrest] at hparse
    cases hparse
  | ok ops' =>
    rw [hrest] at hparse
    obtain rfl := Except.ok.inj hparse
    exact ⟨_, rfl, rfl⟩

theorem parsePatch_update {input path : List Char} {body : List BodyLine}
    (h : lines input = patchLines path body) (hpath : (targetOf path).1 ≠ [])
    (hstars : ∀ l ∈ body, isMarker "***" l.render = false) :
    parsePatch input = .ok [.updateFile (targetOf path).1 (targetOf path).2
      (readHunks (some {}) (body.map BodyLine.render))] := by
  obtain ⟨hzero, hend, hbetween⟩ := patchLines_markers path body
  have hstay : ∀ l ∈ body.map BodyLine.render, (!isMarker "***" l) = true :=
    List.forall_mem_map.mpr fun l hl => by rw [hstars l hl]; rfl
  have hop : opLines (body.map BodyLine.render) = body.map BodyLine.render :=
    List.takeWhile_eq_self_iff.mpr hstay
  have hafter : afterOp (body.map BodyLine.render) = [] := List.dropWhile_eq_nil_iff.mpr hstay
  unfold parsePatch
  simp only [h, hzero, hend]
  rw [if_neg (by omega), Nat.zero_add, hbetween, parseOps_update, if_neg hpath, hop, hafter,
    parseOps]
  rfl

/-! ## What a hunk means -/

theorem textsOf_cons (p : LineKind → Bool) (l : BodyLine) (body : List BodyLine) :
    textsOf p (l :: body) = if p l.kind then l.text :: textsOf p body else textsOf p body := by
  unfold textsOf
  rw [List.filter_cons]
  split_ifs <;> rfl

theorem textsOf_of_sorted {body : List BodyLine}
    (h : body.Pairwise fun a b => b.kind = .context → a.kind = .context) {kind : LineKind}
    (hkind : kind ≠ .context) : textsOf (· == .context) body ++ textsOf (· == kind) body =
      textsOf (fun k => k == .context || k == kind) body := by
  induction body with
  | nil => rfl
  | cons l body ih =>
    obtain ⟨hl, hbody⟩ := List.pairwise_cons.mp h
    have hrest := ih hbody
    rw [textsOf_cons, textsOf_cons, textsOf_cons]
    by_cases hcontext : l.kind = .context
    · simp only [hcontext, beq_self_eq_true, if_true, Bool.true_or,
        beq_eq_false_iff_ne.mpr (Ne.symm hkind), Bool.false_eq_true, if_false, List.cons_append,
        hrest]
    · have hnone : textsOf (· == .context) body = [] := by
        unfold textsOf
        rw [List.map_eq_nil_iff, List.filter_eq_nil_iff]
        exact fun m hm hm' => hcontext (hl m hm (eq_of_beq hm'))
      rw [hnone, List.nil_append] at hrest
      simp only [beq_eq_false_iff_ne.mpr hcontext, Bool.false_eq_true, if_false, Bool.false_or,
        hnone, List.nil_append, hrest]

theorem oldSide_of_sorted {body : List BodyLine}
    (h : body.Pairwise fun a b => b.kind = .context → a.kind = .context) :
    textsOf (· == .context) body ++ textsOf (· == .old) body = oldSide body := by
  rw [textsOf_of_sorted h (by decide)]
  unfold oldSide
  congr 1
  funext k
  cases k <;> rfl

theorem newSide_of_sorted {body : List BodyLine}
    (h : body.Pairwise fun a b => b.kind = .context → a.kind = .context) :
    textsOf (· == .context) body ++ textsOf (· == .new) body = newSide body := by
  rw [textsOf_of_sorted h (by decide)]
  unfold newSide
  congr 1
  funext k
  cases k <;> rfl

theorem exists_of_applyHunks_singleton {content result : List Char} {hunk : Hunk}
    (h : applyHunks content [hunk] = .ok result) : ∃ pre mid post,
      lines content = pre ++ mid ++ post ∧ Matches mid hunk.anchor ∧
        result = finish (content.getLast? == some '\n')
          (pre ++ (hunk.contextBefore ++ hunk.newLines) ++ post) := by
  unfold applyHunks at h
  rw [applyAll] at h
  cases hstep : applyHunk (lines content) hunk with
  | none =>
    rw [hstep] at h
    cases h
  | some ls' =>
    rw [hstep] at h
    obtain ⟨pre, mid, post, hsplit, hmatch, rfl⟩ := applyHunk_spec hstep
    exact ⟨pre, mid, post, hsplit, hmatch, (Except.ok.inj h).symm⟩

/-- **A hunk means what its body says** exactly when the patch cannot be read, or no line of the
body is a marker and no context stands behind a change. -/
theorem meansDiff_iff {input path : List Char} {body : List BodyLine}
    (h : lines input = patchLines path body) :
    MeansDiff input body ↔ (∀ ops, parsePatch input ≠ .ok ops) ∨ Plain body := by
  constructor
  · intro hmeans
    by_contra hnot
    obtain ⟨hread, hplain⟩ := not_or.mp hnot
    push Not at hread
    obtain ⟨ops, hops⟩ := hread
    obtain ⟨op, hop, hhunks⟩ := hunks_of_parsePatch h hops
    -- a file with what the hunks look for and nothing else has too few lines for the old side
    have hlined : ∀ l ∈ op.hunks.flatMap Hunk.anchor, '\n' ∉ l := by
      intro l hl
      obtain ⟨hunk, hhunk, hl⟩ := List.mem_flatMap.mp hl
      have hunkLined := lined_parsePatch hops op (List.mem_of_head? hop) hunk hhunk
      rcases List.mem_append.mp hl with hl | hl
      · exact hunkLined.contextBefore l hl
      · exact hunkLined.oldLines l hl
    have hlines := lines_crlf hlined
    obtain ⟨ls', happly⟩ := @exists_applyAll op.hunks 0 _ (List.infix_refl _)
    rw [← hlines] at happly
    obtain ⟨result, hresult⟩ : ∃ result, applyHunks
        ((op.hunks.flatMap Hunk.anchor).flatMap (· ++ ['\r', '\n'])) op.hunks = .ok result := by
      unfold applyHunks
      rw [happly]
      exact ⟨_, rfl⟩
    obtain ⟨pre, mid, post, hsplit, hmatch, -⟩ := hmeans ops hops op hop _ _ hresult
    have hshort := (sought_readHunks {} body).2 (mt plainFrom_start.mp hplain)
    rw [← hhunks, ← length_flatMap_anchor, ← hlines, hsplit, List.length_append,
      List.length_append, hmatch.length_eq] at hshort
    have hempty : ({} : HunkState).hunk.anchor.length = 0 := rfl
    omega
  · rintro (hreject | hplain) ops hops op hop content result hresult
    · exact absurd hops (hreject ops)
    · obtain ⟨op', hop', hhunks⟩ := hunks_of_parsePatch h hops
      obtain rfl := Option.some.inj (hop.symm.trans hop')
      rw [hhunks, readHunks_of_plain (plainFrom_start.mpr hplain)] at hresult
      obtain ⟨pre, mid, post, hsplit, hmatch, heq⟩ := exists_of_applyHunks_singleton hresult
      refine ⟨pre, mid, post, hsplit, ?_, ?_⟩
      · rwa [← oldSide_of_sorted hplain.2]
      · rw [heq, ← newSide_of_sorted hplain.2]
        rfl

/-- A change between two lines of context. -/
def changeBetween : List BodyLine :=
  [⟨.context, "a".toList⟩, ⟨.old, "b".toList⟩, ⟨.new, "B".toList⟩, ⟨.context, "c".toList⟩]

theorem meansDiff_change :
    MeansDiff "*** Begin Patch\n*** Update File: f\n@@\n a\n-b\n+B\n*** End Patch".toList
      (changeBetween.take 3) :=
  (@meansDiff_iff _ " f".toList _ (by decide)).mpr (.inr (by decide))

/-- The context behind the change is not looked for: the hunk is applied where it differs. -/
theorem contextAfter_not_sought : ¬ MeansDiff
    "*** Begin Patch\n*** Update File: f\n@@\n a\n-b\n+B\n c\n*** End Patch".toList
      changeBetween := by
  intro h
  have hops := @parsePatch_update
    "*** Begin Patch\n*** Update File: f\n@@\n a\n-b\n+B\n c\n*** End Patch".toList " f".toList
    changeBetween (by decide) (by decide) (by decide)
  have hresult : applyHunks "a\nb\nd\n".toList
      (readHunks (some {}) (changeBetween.map BodyLine.render)) = .ok "a\nB\nd\n".toList := by
    decide
  obtain ⟨pre, mid, post, hsplit, hmatch, -⟩ := h _ hops _ rfl _ _ hresult
  have hall : ∃ l ∈ lines "a\nb\nd\n".toList, trimEnd l = "c".toList := by
    have hmem : "c".toList ∈ mid.map trimEnd := by
      rw [hmatch]
      decide
    obtain ⟨l, hl, heq⟩ := List.mem_map.mp hmem
    refine ⟨l, ?_, heq⟩
    rw [hsplit]
    exact List.mem_append_left _ (List.mem_append_right _ hl)
  exact absurd hall (by decide)

end LibreFang.Patch
