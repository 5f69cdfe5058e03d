import LibreFang.Patch.Apply

/-!
# What a patch leaves alone

The lines of a file are followed through the hunks: which are left, and where.

* `Entry`, `replayAll`: the loop over entries; **`applyAll_eq`**: its texts are those of the loop.
* `Frame`: every line that is left stands in the result byte for byte, at its place;
  `frame_resultOf_iff`: what that takes of the entries.
* `PatchKeeps`: a file and hunks with nothing that the loop changes on the way; `Standing`: the
  invariant of the loop; **`keepsRest_of_patchKeeps`**: such a patch leaves the other lines alone.
* **`increasing_applyHunks`**: the lines that are left keep their order, and their texts up to
  blanks.
-/

namespace LibreFang.Patch

open Text TextLines

/-! ## Lines followed through the hunks -/

/-- A line of the file that is patched: its number in the original file unless a hunk has added it,
and its text. -/
structure Entry where
  origin : Option ℕ
  text : Line
  deriving DecidableEq, Repr

/-- The lines of a file. -/
def entriesOf (content : List Char) : List Entry :=
  (lines content).zipIdx.map fun line => ⟨some line.2, line.1⟩

/-- A line that a hunk adds. -/
def Entry.fresh (text : Line) : Entry := ⟨none, text⟩

/-- Lines that match context stay, in the spelling of the hunk. -/
def respell (entries : List Entry) (context : List Line) : List Entry :=
  List.zipWith (fun entry text => { entry with text := text }) entries context

/-- One round of the loop of `apply_hunks`, over entries. -/
def replayHunk (entries : List Entry) (hunk : Hunk) : Option (List Entry) :=
  if hunk.anchor.isEmpty && hunk.oldLines.isEmpty then
    some (entries ++ hunk.newLines.map Entry.fresh)
  else
    (position (entries.map Entry.text) hunk).map fun pos =>
      entries.take pos ++
        (respell ((entries.drop pos).take hunk.contextBefore.length) hunk.contextBefore ++
          hunk.newLines.map Entry.fresh) ++
        entries.drop (pos + (hunk.contextBefore.length + hunk.oldLines.length))

/-- The loop of `apply_hunks`, over entries. -/
def replayAll (entries : List Entry) : List Hunk → Option (List Entry)
  | [] => some entries
  | hunk :: hunks => (replayHunk entries hunk).bind (replayAll · hunks)

theorem map_text_entriesOf (content : List Char) :
    (entriesOf content).map Entry.text = lines content := by
  unfold entriesOf
  rw [List.map_map]
  exact List.zipIdx_map_fst 0 _

theorem map_text_fresh (ls : List Line) : (ls.map Entry.fresh).map Entry.text = ls := by
  rw [List.map_map]
  exact List.map_id ls

theorem map_text_respell {entries : List Entry} {context : List Line}
    (h : context.length ≤ entries.length) : (respell entries context).map Entry.text = context := by
  induction context generalizing entries with
  | nil =>
    unfold respell
    rw [List.zipWith_nil_right]
    rfl
  | cons text context ih =>
    cases entries with
    | nil => exact absurd h (Nat.not_succ_le_zero _)
    | cons entry entries => exact congrArg (text :: ·) (ih (Nat.le_of_succ_le_succ h))

theorem replayHunk_text (entries : List Entry) (hunk : Hunk) :
    (replayHunk entries hunk).map (List.map Entry.text) =
      applyHunk (entries.map Entry.text) hunk := by
  unfold replayHunk applyHunk
  split_ifs
  · rw [Option.map_some, List.map_append, map_text_fresh]
  · cases hpos : position (entries.map Entry.text) hunk with
    | none => rfl
    | some pos =>
      obtain ⟨pre, mid, post, heq, rfl, hmatch⟩ := position_spec hpos
      have hlength := congrArg List.length heq
      simp only [List.length_map, List.length_append, hmatch.length_eq, Hunk.anchor] at hlength
      have hcontext : hunk.contextBefore.length ≤
          ((entries.drop pre.length).take hunk.contextBefore.length).length := by
        rw [List.length_take, List.length_drop]
        omega
      simp only [Option.map_some, List.map_append, List.map_take, List.map_drop, map_text_fresh,
        map_text_respell hcontext]

/-- **The texts of the entries** are the lines of the loop. -/
theorem applyAll_eq (idx : ℕ) (entries : List Entry) (hunks : List Hunk) (ls : List Line) :
    applyAll idx (entries.map Entry.text) hunks = .ok ls ↔
      ∃ entries', replayAll entries hunks = some entries' ∧ ls = entries'.map Entry.text := by
  induction hunks generalizing idx entries with
  | nil =>
    rw [applyAll, replayAll]
    constructor
    · intro h
      exact ⟨entries, rfl, (Except.ok.inj h).symm⟩
    · rintro ⟨entries', h, rfl⟩
      rw [Option.some.inj h]
  | cons hunk hunks ih =>
    rw [applyAll, replayAll, ← replayHunk_text]
    cases replayHunk entries hunk with
    | none =>
      refine iff_of_false (fun h => ?_) ?_
      · cases h
      · rintro ⟨entries', h, -⟩
        cases h
    | some entries₁ => exact ih (idx + 1) entries₁

/-- The numbers of the lines that are left. -/
def origins (entries : List Entry) : List ℕ := entries.filterMap Entry.origin

theorem origins_append (a b : List Entry) : origins (a ++ b) = origins a ++ origins b :=
  List.filterMap_append

theorem origins_fresh (ls : List Line) : origins (ls.map Entry.fresh) = [] := by
  unfold origins
  rw [List.filterMap_map]
  exact List.filterMap_eq_nil_iff.mpr fun _ _ => rfl

theorem origins_respell_sublist (entries : List Entry) (context : List Line) :
    (origins (respell entries context)).Sublist (origins entries) := by
  induction entries generalizing context with
  | nil => exact List.nil_sublist _
  | cons entry entries ih =>
    cases context with
    | nil => exact List.nil_sublist _
    | cons text context =>
      exact (origins_append [entry] (respell entries context)) ▸
        (origins_append [entry] entries) ▸ (ih context).append_left _

variable {hunk : Hunk}

theorem origins_replayHunk {entries entries' : List Entry}
    (h : replayHunk entries hunk = some entries') :
    (origins entries').Sublist (origins entries) := by
  unfold replayHunk at h
  split_ifs at h
  · obtain rfl := Option.some.inj h
    rw [origins_append, origins_fresh, List.append_nil]
  · obtain ⟨pos, -, rfl⟩ := Option.map_eq_some_iff.mp h
    rw [origins_append, origins_append, origins_append, origins_fresh, List.append_nil,
      List.append_assoc]
    have hsplit : origins entries = origins (entries.take pos) ++ origins (entries.drop pos) := by
      rw [← origins_append, List.take_append_drop]
    have hdrop : origins (entries.drop pos) =
        origins ((entries.drop pos).take hunk.contextBefore.length) ++
          origins ((entries.drop pos).drop hunk.contextBefore.length) := by
      rw [← origins_append, List.take_append_drop]
    rw [hsplit, hdrop]
    refine List.Sublist.append_left ((origins_respell_sublist _ _).append ?_) _
    refine List.Sublist.filterMap _ ?_
    rw [← Nat.add_assoc, ← List.drop_drop, ← List.drop_drop]
    exact List.drop_sublist _ _

variable {hunks : List Hunk}

theorem origins_replayAll {entries entries' : List Entry}
    (h : replayAll entries hunks = some entries') :
    (origins entries').Sublist (origins entries) := by
  induction hunks generalizing entries with
  | nil =>
    obtain rfl := Option.some.inj h
    exact List.Sublist.refl _
  | cons hunk hunks ih =>
    obtain ⟨entries₁, h₁, h⟩ := Option.bind_eq_some_iff.mp h
    exact (ih h).trans (origins_replayHunk h₁)

theorem lined_applyHunk {ls ls' : List Line} (hlined : hunk.Lined)
    (h : applyHunk ls hunk = some ls') (hls : ∀ l ∈ ls, '\n' ∉ l) : ∀ l ∈ ls', '\n' ∉ l := by
  obtain ⟨pre, mid, post, rfl, -, rfl⟩ := applyHunk_spec h
  intro l hl
  rcases List.mem_append.mp hl with hl | hl
  · rcases List.mem_append.mp hl with hl | hl
    · exact hls l (List.mem_append_left _ (List.mem_append_left _ hl))
    · rcases List.mem_append.mp hl with hl | hl
      · exact hlined.contextBefore l hl
      · exact hlined.newLines l hl
  · exact hls l (List.mem_append_right _ hl)

theorem lined_applyAll {idx : ℕ} {ls ls' : List Line}
    (hlined : ∀ hunk ∈ hunks, hunk.Lined) (h : applyAll idx ls hunks = .ok ls')
    (hls : ∀ l ∈ ls, '\n' ∉ l) : ∀ l ∈ ls', '\n' ∉ l := by
  induction hunks generalizing idx ls with
  | nil =>
    obtain rfl := Except.ok.inj h
    exact hls
  | cons hunk hunks ih =>
    rw [List.forall_mem_cons] at hlined
    rw [applyAll] at h
    cases hstep : applyHunk ls hunk with
    | none =>
      rw [hstep] at h
      cases h
    | some ls₁ =>
      rw [hstep] at h
      exact ih hlined.2 h (lined_applyHunk hlined.1 hstep hls)

/-- What `finish` puts behind the last line. -/
def lastEnd (trailing : Bool) (ls : List Line) (last : Line) : List Char :=
  if trailing ∧ (last ≠ [] ∨ ls = []) then ['\n'] else []

variable {ls : List Line}

theorem finish_concat (trailing : Bool) {last : Line} (hlast : '\n' ∉ last) :
    finish trailing (ls ++ [last]) =
      ls.flatMap (· ++ ['\n']) ++ (last ++ lastEnd trailing ls last) := by
  have hends : (unlines (ls ++ [last])).getLast? = some '\n' ↔ last = [] ∧ ls ≠ [] := by
    rw [unlines_concat]
    by_cases hempty : last = []
    · rw [hempty, List.append_nil, and_iff_right rfl]
      induction ls using List.reverseRecOn with
      | nil => exact iff_of_false (Option.some_ne_none _).symm fun h => h rfl
      | append_singleton ls l _ =>
        refine iff_of_true ?_ (List.append_ne_nil_of_right_ne_nil _ (List.cons_ne_nil _ _))
        rw [List.flatMap_append, List.flatMap_singleton, ← List.append_assoc, List.getLast?_concat]
    · rw [List.getLast?_append_of_ne_nil _ hempty]
      exact iff_of_false (fun h => hlast (List.mem_of_getLast? h)) fun h => hempty h.1
  unfold finish lastEnd
  simp only [Bool.and_eq_true, bne_iff_ne, ne_eq, hends, not_and_or, not_not]
  split_ifs <;> simp [unlines_concat]

theorem splitInclusive_finish (trailing : Bool) {last : Line}
    (hls : ∀ l ∈ ls, '\n' ∉ l) (hlast : '\n' ∉ last) :
    splitInclusive (finish trailing (ls ++ [last])) =
      ls.map (· ++ ['\n']) ++ if last ++ lastEnd trailing ls last = [] then []
        else [last ++ lastEnd trailing ls last] := by
  rw [finish_concat trailing hlast, splitInclusive_flatMap hls]
  congr 1
  unfold lastEnd
  split_ifs with hend hnil hnil
  · exact absurd hnil (List.append_ne_nil_of_right_ne_nil _ (List.cons_ne_nil _ _))
  · exact splitInclusive_append hlast []
  · rw [hnil]
    rfl
  · rw [List.append_nil] at hnil ⊢
    exact splitInclusive_of_not_mem hlast hnil

/-! ## The other lines -/

/-- **The other lines are kept**: each line of the file that is left stands in the result at its
place, byte for byte, and the result has no more lines. A last line without a newline gets one if
lines are added behind it. -/
structure Frame (content : List Char) (entries : List Entry) (result : List Char) : Prop where
  stands : ∀ j entry i piece, entries[j]? = some entry → entry.origin = some i →
    (splitInclusive content)[i]? = some piece →
      (splitInclusive result)[j]? = some piece ∨
        '\n' ∉ piece ∧ j + 1 < entries.length ∧
          (splitInclusive result)[j]? = some (piece ++ ['\n'])
  length_le : entries = [] ∨ (splitInclusive result).length ≤ entries.length

/-- A line at its place, with the text that the last context line has given it. If lines follow, a
newline makes it the line of the file (or it is the file's last line, without one). If it is the
last, it has a newline exactly if the file ends with one, and is not blank unless it is the only
one. -/
def PreservedAt (content : List Char) (entries : List Entry) (j : ℕ) (text : Line)
    (piece : List Char) : Prop :=
  if j + 1 < entries.length then piece = text ++ ['\n'] ∨ piece = text
  else
    piece = text ++ (if content.getLast? = some '\n' then ['\n'] else []) ∧
      (text ≠ [] ∨ entries.length = 1)

/-- Every line of the file that is left is preserved at its place. -/
def Preserved (content : List Char) (entries : List Entry) : Prop :=
  ∀ j < entries.length, ∀ entry ∈ entries[j]?, ∀ i ∈ entry.origin,
    ∀ piece ∈ (splitInclusive content)[i]?, PreservedAt content entries j entry.text piece

variable {content result : List Char} {entries : List Entry}

/-- The result of the entries that are left. -/
def resultOf (content : List Char) (entries : List Entry) : List Char :=
  finish (content.getLast? == some '\n') (entries.map Entry.text)

theorem getElem?_result_of_lt (hlined : ∀ entry ∈ entries, '\n' ∉ entry.text) {j : ℕ}
    {entry : Entry} (hentry : entries[j]? = some entry) (hj : j + 1 < entries.length) :
    (splitInclusive (resultOf content entries))[j]? = some (entry.text ++ ['\n']) := by
  induction entries using List.reverseRecOn with
  | nil => exact absurd hj (Nat.not_lt_zero _)
  | append_singleton entries last _ =>
    rw [List.forall_mem_append, List.forall_mem_singleton] at hlined
    rw [List.length_append, List.length_singleton] at hj
    have hlt : j < entries.length := by omega
    rw [List.getElem?_append_left hlt] at hentry
    have hls : ∀ l ∈ entries.map Entry.text, '\n' ∉ l := List.forall_mem_map.mpr hlined.1
    rw [resultOf, List.map_append, List.map_singleton, splitInclusive_finish _ hls hlined.2,
      List.getElem?_append_left (by rwa [List.length_map, List.length_map]), List.getElem?_map,
      List.getElem?_map, hentry]
    rfl

theorem getElem?_result_last (hlined : ∀ entry ∈ entries, '\n' ∉ entry.text) {j : ℕ}
    {entry : Entry} (hentry : entries[j]? = some entry) (hj : ¬ j + 1 < entries.length)
    {piece : List Char} (hne : piece ≠ []) :
    (splitInclusive (resultOf content entries))[j]? = some piece ↔
      piece = entry.text ++ (if content.getLast? = some '\n' then ['\n'] else []) ∧
        (entry.text ≠ [] ∨ entries.length = 1) := by
  induction entries using List.reverseRecOn with
  | nil => cases hentry
  | append_singleton entries last _ =>
    rw [List.forall_mem_append, List.forall_mem_singleton] at hlined
    have hlt := (List.getElem?_eq_some_iff.mp hentry).1
    rw [List.length_append, List.length_singleton] at hj hlt
    obtain rfl : j = entries.length := by omega
    rw [List.getElem?_concat_length] at hentry
    obtain rfl := Option.some.inj hentry
    have hls : ∀ l ∈ entries.map Entry.text, '\n' ∉ l := List.forall_mem_map.mpr hlined.1
    have honly : (entries ++ [last]).length = 1 ↔ entries = [] := by
      rw [List.length_append, List.length_singleton]
      exact ⟨fun h => List.length_eq_zero_iff.mp (by omega), fun h => by rw [h]; rfl⟩
    rw [resultOf, List.map_append, List.map_singleton, splitInclusive_finish _ hls hlined.2,
      List.getElem?_append_right (by rw [List.length_map, List.length_map]), honly]
    simp only [List.length_map, Nat.sub_self, lastEnd, beq_iff_eq, List.map_eq_nil_iff]
    by_cases hplace : last.text ≠ [] ∨ entries = []
    · simp only [hplace, and_true]
      split_ifs with hend hnil hnil
      · exact absurd hnil (List.append_ne_nil_of_right_ne_nil _ (List.cons_ne_nil _ _))
      · exact ⟨fun h => (Option.some.inj h).symm, fun h => congrArg some h.symm⟩
      · refine iff_of_false (fun h => Option.some_ne_none _ h.symm) fun h => hne ?_
        rw [h, hnil]
      · exact ⟨fun h => (Option.some.inj h).symm, fun h => congrArg some h.symm⟩
    · obtain ⟨hempty, hsome⟩ := not_or.mp hplace
      rw [not_not] at hempty
      refine iff_of_false ?_ fun h => hplace h.2
      simp [hempty, hsome]

theorem length_result_le (hlined : ∀ entry ∈ entries, '\n' ∉ entry.text) :
    entries = [] ∨ (splitInclusive (resultOf content entries)).length ≤ entries.length := by
  induction entries using List.reverseRecOn with
  | nil => exact .inl rfl
  | append_singleton entries last _ =>
    rw [List.forall_mem_append, List.forall_mem_singleton] at hlined
    have hls : ∀ l ∈ entries.map Entry.text, '\n' ∉ l := List.forall_mem_map.mpr hlined.1
    rw [resultOf, List.map_append, List.map_singleton, splitInclusive_finish _ hls hlined.2]
    refine .inr ?_
    split_ifs <;> simp

theorem frame_resultOf_iff (hlined : ∀ entry ∈ entries, '\n' ∉ entry.text) :
    Frame content entries (resultOf content entries) ↔ Preserved content entries := by
  have hplace (j : ℕ) (entry : Entry) (i : ℕ) (piece : List Char)
      (hentry : entries[j]? = some entry) (hpiece : (splitInclusive content)[i]? = some piece) :
      ((splitInclusive (resultOf content entries))[j]? = some piece ∨
          '\n' ∉ piece ∧ j + 1 < entries.length ∧
            (splitInclusive (resultOf content entries))[j]? = some (piece ++ ['\n'])) ↔
        PreservedAt content entries j entry.text piece := by
    unfold PreservedAt
    by_cases hj : j + 1 < entries.length
    · rw [if_pos hj, getElem?_result_of_lt hlined hentry hj]
      constructor
      · rintro (h | ⟨-, -, h⟩)
        · exact .inl (Option.some.inj h).symm
        · exact .inr (List.append_cancel_right (Option.some.inj h)).symm
      · rintro (rfl | rfl)
        · exact .inl rfl
        · exact .inr ⟨hlined entry (List.mem_of_getElem? hentry), hj, rfl⟩
    · have hne := (isPiece_of_mem (List.mem_of_getElem? hpiece)).ne_nil
      rw [if_neg hj, ← getElem?_result_last hlined hentry hj hne]
      exact or_iff_left fun h => hj h.2.1
  constructor
  · intro h j _ entry hentry i horigin piece hpiece
    exact (hplace j entry i piece hentry hpiece).mp (h.stands j entry i piece hentry horigin hpiece)
  · intro h
    refine ⟨fun j entry i piece hentry horigin hpiece => ?_, length_result_le hlined⟩
    have hj := (List.getElem?_eq_some_iff.mp hentry).1
    exact (hplace j entry i piece hentry hpiece).mpr (h j hj entry hentry i horigin piece hpiece)

/-- **A patch leaves the other lines alone**: what is left of the file stands in the result. -/
def KeepsRest (content : List Char) (hunks : List Hunk) (result : List Char) : Prop :=
  ∃ entries, replayAll (entriesOf content) hunks = some entries ∧ Frame content entries result

theorem exists_replay (h : applyHunks content hunks = .ok result) :
    ∃ entries, replayAll (entriesOf content) hunks = some entries ∧
      applyAll 0 (lines content) hunks = .ok (entries.map Entry.text) ∧
        result = resultOf content entries := by
  unfold applyHunks at h
  cases hall : applyAll 0 (lines content) hunks with
  | error e =>
    rw [hall] at h
    cases h
  | ok ls =>
    rw [hall] at h
    have hreplay := hall
    rw [← map_text_entriesOf, applyAll_eq] at hreplay
    obtain ⟨entries, hentries, rfl⟩ := hreplay
    exact ⟨entries, hentries, rfl, (Except.ok.inj h).symm⟩

/-! ## Patches that keep the rest -/

/-- The last of some lines is not blank, or it is the only one. -/
def LastVisible (ls : List Line) : Prop := ls.getLast? ≠ some [] ∨ ls.length = 1

instance (ls : List Line) : Decidable (LastVisible ls) :=
  inferInstanceAs (Decidable (ls.getLast? ≠ some [] ∨ ls.length = 1))

/-- A hunk spells its context as the file does. If it takes the last lines of the file and puts none
in their place, nothing is left, or the file ended with a newline and the line before is not
blank. -/
def HunkKeeps (trailing : Bool) (ls : List Line) (hunk : Hunk) : Prop :=
  ∀ pos ∈ position ls hunk,
    (ls.drop pos).take hunk.contextBefore.length = hunk.contextBefore ∧
      (hunk.oldLines ≠ [] → hunk.newLines = [] → pos + hunk.anchor.length = ls.length →
        pos + hunk.contextBefore.length = 0 ∨
          trailing = true ∧ LastVisible (ls.take (pos + hunk.contextBefore.length)))

instance (trailing : Bool) (ls : List Line) (hunk : Hunk) :
    Decidable (HunkKeeps trailing ls hunk) :=
  inferInstanceAs (Decidable (∀ pos ∈ position ls hunk,
    (ls.drop pos).take hunk.contextBefore.length = hunk.contextBefore ∧
      (hunk.oldLines ≠ [] → hunk.newLines = [] → pos + hunk.anchor.length = ls.length →
        pos + hunk.contextBefore.length = 0 ∨
          trailing = true ∧ LastVisible (ls.take (pos + hunk.contextBefore.length)))))

/-- Each hunk does, on the lines of the file in its turn. -/
def HunksKeep (trailing : Bool) (ls : List Line) : List Hunk → Prop
  | [] => True
  | hunk :: hunks =>
    HunkKeeps trailing ls hunk ∧ ∀ ls' ∈ applyHunk ls hunk, HunksKeep trailing ls' hunks

/-- No line of the file ends in `\r` and a newline, its last line is not blank, and the hunks keep
the rest of it. -/
structure PatchKeeps (content : List Char) (hunks : List Hunk) : Prop where
  lineFeeds : ∀ piece ∈ splitInclusive content, ending piece ≠ ['\r', '\n']
  visible : LastVisible (lines content)
  hunksKeep : HunksKeep (content.getLast? == some '\n') (lines content) hunks

/-- The lines of the file that are left are spelled as in the file, up to a last newline, and the
last of them stands at the end as in the file. -/
structure Standing (content : List Char) (entries : List Entry) : Prop where
  spelled : ∀ entry ∈ entries, ∀ i ∈ entry.origin, ∀ piece ∈ (splitInclusive content)[i]?,
    piece = entry.text ++ ['\n'] ∨ content.getLast? ≠ some '\n' ∧ piece = entry.text
  last : ∀ entry ∈ entries.getLast?, ∀ i ∈ entry.origin, ∀ piece ∈ (splitInclusive content)[i]?,
    piece = entry.text ++ (if content.getLast? = some '\n' then ['\n'] else []) ∧
      (entry.text ≠ [] ∨ entries.length = 1)

theorem Standing.preserved (h : Standing content entries) : Preserved content entries := by
  intro j hj entry hentry i hi piece hpiece
  unfold PreservedAt
  by_cases hlast : j + 1 < entries.length
  · rw [if_pos hlast]
    exact (h.spelled entry (List.mem_of_getElem? hentry) i hi piece hpiece).imp_right And.right
  · rw [if_neg hlast]
    refine h.last entry ?_ i hi piece hpiece
    rw [List.getLast?_eq_getElem?, show entries.length - 1 = j by omega]
    exact hentry

theorem getLast?_of_getLast? {piece : List Char}
    (h : (splitInclusive content).getLast? = some piece) : content.getLast? = piece.getLast? := by
  obtain ⟨pieces, hpieces⟩ := List.getLast?_eq_some_iff.mp h
  have hne : piece ≠ [] := (isPiece_of_mem (List.mem_of_getLast? h)).ne_nil
  rw [← flatten_splitInclusive content, hpieces, List.flatten_append, List.flatten_singleton,
    List.getLast?_append_of_ne_nil _ hne]

theorem getLast?_ne_of_not_mem {piece : List Char} (h : piece ∈ splitInclusive content)
    (hmem : '\n' ∉ piece) : content.getLast? ≠ some '\n' := by
  have hne : splitInclusive content ≠ [] := List.ne_nil_of_mem h
  rw [← List.dropLast_append_getLast hne] at h
  rcases List.mem_append.mp h with h | h
  · exact absurd (mem_of_mem_dropLast h) hmem
  · obtain rfl := List.mem_singleton.mp h
    rw [getLast?_of_getLast? (List.getLast?_eq_some_getLast hne)]
    exact fun hlast => hmem (List.mem_of_getLast? hlast)

theorem getElem?_entriesOf (content : List Char) (j : ℕ) :
    (entriesOf content)[j]? = (splitInclusive content)[j]?.map fun piece =>
      ⟨some j, chomp piece⟩ := by
  unfold entriesOf lines
  rw [List.getElem?_map, List.getElem?_zipIdx, List.getElem?_map, Option.map_map, Option.map_map,
    Nat.zero_add]
  rfl

theorem standing_entriesOf (hfeeds : ∀ piece ∈ splitInclusive content, ending piece ≠ ['\r', '\n'])
    (hvisible : LastVisible (lines content)) : Standing content (entriesOf content) := by
  have hplace {j i : ℕ} {entry : Entry} {piece : List Char} (hentry : (entriesOf content)[j]? = entry)
      (hi : i ∈ entry.origin) (hpiece : piece ∈ (splitInclusive content)[i]?) :
      entry.text = chomp piece ∧ (splitInclusive content)[j]? = some piece := by
    rw [getElem?_entriesOf] at hentry
    obtain ⟨piece', hpiece', rfl⟩ := Option.map_eq_some_iff.mp hentry
    obtain rfl := Option.some.inj hi
    obtain rfl := Option.some.inj (hpiece'.symm.trans hpiece)
    exact ⟨rfl, hpiece'⟩
  have hspelled (entry : Entry) (hmem : entry ∈ entriesOf content) (i : ℕ) (hi : i ∈ entry.origin)
      (piece : List Char) (hpiece : piece ∈ (splitInclusive content)[i]?) :
      piece = entry.text ++ ['\n'] ∨ content.getLast? ≠ some '\n' ∧ piece = entry.text := by
    obtain ⟨j, hj⟩ := List.getElem?_of_mem hmem
    rw [(hplace hj hi hpiece).1]
    have hmem := List.mem_of_getElem? hpiece
    obtain ⟨happend, hend | hend | hend⟩ := chomp_append_ending piece
    · rw [hend, List.append_nil] at happend
      refine .inr ⟨getLast?_ne_of_not_mem hmem ?_, happend.symm⟩
      exact happend ▸ (isPiece_of_mem hmem).not_mem_chomp
    · exact .inl (hend ▸ happend.symm)
    · exact absurd hend (hfeeds piece hmem)
  refine ⟨hspelled, fun entry hentry i hi piece hpiece => ⟨?_, ?_⟩⟩
  · have hlast : (splitInclusive content).getLast? = some piece := by
      rw [List.getLast?_eq_getElem?] at hentry ⊢
      rw [← length_lines, ← map_text_entriesOf, List.length_map]
      exact (hplace hentry hi hpiece).2
    rcases hspelled entry (List.mem_of_getLast? hentry) i hi piece hpiece with hline | ⟨hend, hline⟩
    · rw [getLast?_of_getLast? hlast, hline, List.getLast?_concat, if_pos rfl]
    · rw [if_neg hend, List.append_nil, hline]
  · have htext : (lines content).getLast? = some entry.text := by
      rw [← map_text_entriesOf, List.getLast?_map, hentry]
      rfl
    unfold LastVisible at hvisible
    rw [htext, ← map_text_entriesOf, List.length_map] at hvisible
    exact hvisible.imp_left fun h hnil => h (congrArg some hnil)

theorem respell_self (entries : List Entry) : respell entries (entries.map Entry.text) = entries := by
  induction entries with
  | nil => rfl
  | cons entry entries ih => exact congrArg (entry :: ·) ih

variable {entries' : List Entry}

theorem replayHunk_of_spelled
    (h : replayHunk entries hunk = some entries')
    (hspelled : ∀ pos ∈ position (entries.map Entry.text) hunk,
      ((entries.map Entry.text).drop pos).take hunk.contextBefore.length = hunk.contextBefore) :
    ∃ kept removed post, entries = kept ++ removed ++ post ∧
      entries' = kept ++ hunk.newLines.map Entry.fresh ++ post ∧
      removed.length = hunk.oldLines.length ∧ (post ≠ [] → kept ++ removed ≠ []) ∧
      (hunk.oldLines ≠ [] → ∃ pos ∈ position (entries.map Entry.text) hunk,
        kept.length = pos + hunk.contextBefore.length) := by
  unfold replayHunk at h
  split_ifs at h with hinsert
  · rw [Bool.and_eq_true, List.isEmpty_iff, List.isEmpty_iff] at hinsert
    obtain rfl := Option.some.inj h
    refine ⟨entries, [], [], by simp, by simp, by rw [hinsert.2]; rfl,
      fun hpost => absurd rfl hpost, fun hold => absurd hinsert.2 hold⟩
  · obtain ⟨pos, hpos, rfl⟩ := Option.map_eq_some_iff.mp h
    have hcontext := hspelled pos hpos
    rw [← List.map_drop, ← List.map_take] at hcontext
    obtain ⟨pre, mid, post, hsplit, hpre, hmatch⟩ := position_spec hpos
    have hlength := congrArg List.length hsplit
    simp only [List.length_map, List.length_append, hmatch.length_eq, Hunk.anchor, hpre] at hlength
    have hdrop : entries.drop (pos + hunk.contextBefore.length + hunk.oldLines.length) =
        (entries.drop (pos + hunk.contextBefore.length)).drop hunk.oldLines.length := by
      rw [List.drop_drop]
    refine ⟨entries.take (pos + hunk.contextBefore.length),
      (entries.drop (pos + hunk.contextBefore.length)).take hunk.oldLines.length,
      entries.drop (pos + (hunk.contextBefore.length + hunk.oldLines.length)), ?_, ?_, ?_, ?_, ?_⟩
    · rw [← Nat.add_assoc, List.append_assoc, hdrop, List.take_append_drop, List.take_append_drop]
    · have hkept := respell_self ((entries.drop pos).take hunk.contextBefore.length)
      rw [hcontext] at hkept
      rw [hkept, List.take_add, ← List.append_assoc]
    · rw [List.length_take, List.length_drop]
      omega
    · intro _ hnil
      have hanchor : hunk.anchor ≠ [] := fun hanchor => hinsert (by
        rw [hanchor, (List.append_eq_nil_iff.mp hanchor).2]
        rfl)
      have hzero := congrArg List.length hnil
      rw [← List.take_add, List.length_take, List.length_nil] at hzero
      rw [ne_eq, ← List.length_eq_zero_iff, Hunk.anchor, List.length_append] at hanchor
      omega
    · refine fun _ => ⟨pos, hpos, ?_⟩
      rw [List.length_take]
      omega

theorem mem_of_mem_splice {kept removed post : List Entry} {newLines : List Line} {entry : Entry}
    {i : ℕ} (h : entry ∈ kept ++ newLines.map Entry.fresh ++ post) (hi : i ∈ entry.origin) :
    entry ∈ kept ++ removed ++ post := by
  rcases List.mem_append.mp h with h | h
  · rcases List.mem_append.mp h with h | h
    · exact List.mem_append_left _ (List.mem_append_left _ h)
    · obtain ⟨text, -, rfl⟩ := List.mem_map.mp h
      cases hi
  · exact List.mem_append_right _ h

theorem Standing.replayHunk (h : Standing content entries)
    (hkeeps : HunkKeeps (content.getLast? == some '\n') (entries.map Entry.text) hunk)
    (hreplay : replayHunk entries hunk = some entries') : Standing content entries' := by
  obtain ⟨kept, removed, post, rfl, rfl, hremoved, hbefore, hpos⟩ :=
    replayHunk_of_spelled hreplay fun pos hpos => (hkeeps pos hpos).1
  have hspelled (entry : Entry) (hentry : entry ∈ kept ++ hunk.newLines.map Entry.fresh ++ post)
      (i : ℕ) (hi : i ∈ entry.origin) := h.spelled entry (mem_of_mem_splice hentry hi) i hi
  refine ⟨hspelled, fun entry hentry i hi piece hpiece => ?_⟩
  by_cases hpost : post = []
  · rw [hpost, List.append_nil] at hentry
    by_cases hnew : hunk.newLines = []
    · rw [hnew, List.map_nil, List.append_nil] at hentry
      rw [hpost, hnew, List.map_nil, List.append_nil, List.append_nil]
      by_cases hold : hunk.oldLines = []
      · rw [hold, List.length_nil, List.length_eq_zero_iff] at hremoved
        rw [hpost, hremoved, List.append_nil, List.append_nil] at h
        exact h.last entry hentry i hi piece hpiece
      · obtain ⟨pos, hmem, hkept⟩ := hpos hold
        have hend := (hkeeps pos hmem).2 hold hnew (by
          rw [hpost, List.append_nil, List.length_map, List.length_append, hkept, hremoved,
            Hunk.anchor, List.length_append, Nat.add_assoc])
        rw [← hkept, ← List.map_take, List.append_assoc, List.take_left] at hend
        obtain hnil | ⟨hlast, hvisible⟩ := hend
        · rw [List.length_eq_zero_iff.mp hnil] at hentry
          cases hentry
        · rw [beq_iff_eq] at hlast
          have hmem := List.mem_append_left post (List.mem_append_left
            (hunk.newLines.map Entry.fresh) (List.mem_of_getLast? hentry))
          obtain hline | ⟨hne, -⟩ := hspelled entry hmem i hi piece hpiece
          · refine ⟨by rw [if_pos hlast, hline], ?_⟩
            unfold LastVisible at hvisible
            rw [List.getLast?_map, hentry, List.length_map] at hvisible
            exact hvisible.imp_left fun h hnil => h (congrArg some hnil)
          · exact absurd hlast hne
    · -- The last line is one of the new ones.
      have hne : hunk.newLines.map Entry.fresh ≠ [] := fun hnil => hnew (List.map_eq_nil_iff.mp hnil)
      rw [List.getLast?_append_of_ne_nil _ hne] at hentry
      obtain ⟨text, -, rfl⟩ := List.mem_map.mp (List.mem_of_getLast? hentry)
      cases hi
  · rw [List.getLast?_append_of_ne_nil _ hpost] at hentry
    obtain ⟨hline, hplace⟩ := h.last entry (by rwa [List.getLast?_append_of_ne_nil _ hpost]) i hi
      piece hpiece
    refine ⟨hline, hplace.imp_right fun hone => ?_⟩
    rw [List.length_append] at hone
    exact absurd (List.length_pos_iff.mpr (hbefore hpost)) (by
      have := List.length_pos_iff.mpr hpost
      omega)

theorem Standing.replayAll (h : Standing content entries)
    (hkeep : HunksKeep (content.getLast? == some '\n') (entries.map Entry.text) hunks)
    (hreplay : replayAll entries hunks = some entries') : Standing content entries' := by
  induction hunks generalizing entries with
  | nil => exact Option.some.inj hreplay ▸ h
  | cons hunk hunks ih =>
    obtain ⟨entries₁, h₁, hreplay⟩ := Option.bind_eq_some_iff.mp hreplay
    refine ih (h.replayHunk hkeep.1 h₁) (hkeep.2 _ ?_) hreplay
    rw [← replayHunk_text, h₁]
    rfl

/-! ## The order of the lines -/

/-- A line that is left has the text of the line of its number, up to blanks at its end. -/
def Tracks (ls : List Line) (entries : List Entry) : Prop :=
  ∀ entry ∈ entries, ∀ i ∈ entry.origin, ls[i]?.map trimEnd = some (trimEnd entry.text)

theorem tracks_entriesOf (content : List Char) : Tracks (lines content) (entriesOf content) := by
  intro entry hentry i hi
  obtain ⟨⟨text, j⟩, hline, rfl⟩ := List.mem_map.mp hentry
  obtain rfl := Option.some.inj hi
  rw [List.mk_mem_zipIdx_iff_getElem?.mp hline]
  rfl

theorem Tracks.respell (h : Tracks ls entries) {context : List Line}
    (hmatch : (entries.map Entry.text).map trimEnd = context.map trimEnd) :
    Tracks ls (respell entries context) := by
  induction context generalizing entries with
  | nil =>
    unfold Patch.respell
    rw [List.zipWith_nil_right]
    exact fun entry hentry => absurd hentry List.not_mem_nil
  | cons text context ih =>
    cases entries with
    | nil => exact fun entry hentry => absurd hentry List.not_mem_nil
    | cons entry entries =>
      obtain ⟨htext, hrest⟩ := List.cons_eq_cons.mp hmatch
      refine List.forall_mem_cons.mpr ⟨fun i hi => ?_, ?_⟩
      · exact (h entry List.mem_cons_self i hi).trans (congrArg some htext)
      · exact ih (fun entry hentry => h entry (List.mem_cons_of_mem _ hentry)) hrest

theorem Tracks.replayHunk
    (h : Tracks ls entries) (hreplay : replayHunk entries hunk = some entries') :
    Tracks ls entries' := by
  have hfresh : Tracks ls (hunk.newLines.map Entry.fresh) := by
    intro entry hentry i hi
    obtain ⟨text, -, rfl⟩ := List.mem_map.mp hentry
    cases hi
  unfold Patch.replayHunk at hreplay
  split_ifs at hreplay
  · obtain rfl := Option.some.inj hreplay
    exact List.forall_mem_append.mpr ⟨h, hfresh⟩
  · obtain ⟨pos, hpos, rfl⟩ := Option.map_eq_some_iff.mp hreplay
    obtain ⟨pre, mid, post, hsplit, rfl, hmatch⟩ := position_spec hpos
    have hmid : Tracks ls ((entries.drop pre.length).take hunk.contextBefore.length) :=
      fun entry hentry => h entry (List.mem_of_mem_drop (List.mem_of_mem_take hentry))
    have hcontext : (((entries.drop pre.length).take hunk.contextBefore.length).map
        Entry.text).map trimEnd = hunk.contextBefore.map trimEnd := by
      have hle : hunk.contextBefore.length ≤ mid.length := by
        rw [hmatch.length_eq, Hunk.anchor, List.length_append]
        exact Nat.le_add_right _ _
      have htake := congrArg (List.take hunk.contextBefore.length) hmatch
      rw [Hunk.anchor, List.map_append, List.take_left' (List.length_map trimEnd)] at htake
      rw [List.map_take, List.map_drop, hsplit, List.append_assoc, List.drop_left,
        List.take_append_of_le_length hle, List.map_take, htake]
    refine List.forall_mem_append.mpr ⟨List.forall_mem_append.mpr ⟨?_,
      List.forall_mem_append.mpr ⟨hmid.respell hcontext, hfresh⟩⟩, ?_⟩
    · exact fun entry hentry => h entry (List.mem_of_mem_take hentry)
    · exact fun entry hentry => h entry (List.mem_of_mem_drop hentry)

theorem Tracks.replayAll
    (h : Tracks ls entries) (hreplay : replayAll entries hunks = some entries') :
    Tracks ls entries' := by
  induction hunks generalizing entries with
  | nil => exact Option.some.inj hreplay ▸ h
  | cons hunk hunks ih =>
    obtain ⟨entries₁, h₁, hreplay⟩ := Option.bind_eq_some_iff.mp hreplay
    exact ih (h.replayHunk h₁) hreplay

/-- **A patch neither reorders nor repeats the lines of a file**: the numbers of those that are left
increase, and each has the text of the line of its number, up to blanks at its end. -/
theorem increasing_applyHunks (h : applyHunks content hunks = .ok result) :
    ∃ entries, replayAll (entriesOf content) hunks = some entries ∧
      result = resultOf content entries ∧ (origins entries).Pairwise (· < ·) ∧
        Tracks (lines content) entries := by
  obtain ⟨entries, hreplay, -, rfl⟩ := exists_replay h
  have hnumbers : origins (entriesOf content) = (lines content).zipIdx.map Prod.snd := by
    unfold origins entriesOf
    rw [List.filterMap_map]
    exact congrFun List.filterMap_eq_map _
  refine ⟨entries, hreplay, rfl, List.Pairwise.sublist (origins_replayAll hreplay) ?_,
    (tracks_entriesOf content).replayAll hreplay⟩
  rw [hnumbers, List.zipIdx_map_snd]
  exact List.pairwise_lt_range'

/-- **A patch leaves the other lines alone** if lines end in newlines only, the last is not blank,
and the hunks spell their context as the file does and leave a last line as the file has it. -/
theorem keepsRest_of_patchKeeps (hlined : ∀ hunk ∈ hunks, hunk.Lined)
    (hkeeps : PatchKeeps content hunks) (h : applyHunks content hunks = .ok result) :
    KeepsRest content hunks result := by
  obtain ⟨entries, hreplay, hall, rfl⟩ := exists_replay h
  have hentries : ∀ entry ∈ entries, '\n' ∉ entry.text := fun entry hentry =>
    lined_applyAll hlined hall (fun _ => not_mem_of_mem_lines) _ (List.mem_map_of_mem hentry)
  have hstanding := (standing_entriesOf hkeeps.lineFeeds hkeeps.visible).replayAll
    (by rw [map_text_entriesOf]; exact hkeeps.hunksKeep) hreplay
  exact ⟨entries, hreplay, (frame_resultOf_iff hentries).mpr hstanding.preserved⟩

/-- A line between two others is replaced. -/
def replaceLine : Hunk := ⟨["a".toList], ["b".toList], ["B".toList], []⟩

theorem lined_replaceLine : ∀ hunk ∈ [replaceLine], hunk.Lined :=
  List.forall_mem_singleton.mpr ⟨by decide, by decide, by decide, by decide⟩

theorem keepsRest_newlines : KeepsRest "a\nb\nc\n".toList [replaceLine] "a\nB\nc\n".toList := by
  refine keepsRest_of_patchKeeps lined_replaceLine ⟨by decide, by decide, ?_, ?_⟩ (by decide)
  · decide
  · exact fun _ _ => trivial

theorem increasing_newlines : ∃ entries,
    replayAll (entriesOf "a\nb\nc\n".toList) [replaceLine] = some entries ∧
      "a\nB\nc\n".toList = resultOf "a\nb\nc\n".toList entries ∧
        (origins entries).Pairwise (· < ·) ∧ Tracks (lines "a\nb\nc\n".toList) entries :=
  increasing_applyHunks (by decide)

/-- Lines that end in `\r` and a newline lose the `\r`. -/
theorem crlf_not_kept : applyHunks "a\r\nb\r\nc\r\n".toList [replaceLine] =
      .ok "a\nB\nc\n".toList ∧
    ¬ KeepsRest "a\r\nb\r\nc\r\n".toList [replaceLine] "a\nB\nc\n".toList := by
  refine ⟨by decide, ?_⟩
  rintro ⟨entries, hreplay, h⟩
  obtain rfl := Option.some.inj hreplay
  exact absurd (h.stands 0 _ 0 "a\r\n".toList rfl rfl (by decide)) (by decide)

end LibreFang.Patch
