import LibreFang.Skills.Evolution

/-!
# Rollback as undo

The snapshots are a stack: a call that changes the prompt puts the old one on top, and a rollback
takes the top one and puts the current one there.

* `World`: the directory, and what the prompt was before the call that changed it last.
* `Reversible`: a call that saves a snapshot changes the prompt, and saves all of it.
* **`rollback_restores`**: after every run of reversible calls, a rollback undoes the last change.
-/

namespace LibreFang.Skills

open Calendar Runs

variable (host : Host)

/-- The content passes validation. -/
def passes (content : String) : Bool :=
  match validatePromptContent host content with
  | .ok () => true
  | .error _ => false

/-- A directory, its prompt before the call that changed it last, if any, and the last reading of
the clock. -/
structure World where
  dir : SkillDir
  before : Option (Option String)
  clock : Option Time
  deriving DecidableEq, Repr

/-- A call on the freshly loaded skill. -/
def step (name : String) (w : World) (e : Event) : World :=
  let dir := (perform host name w.dir e).2
  ⟨dir, if dir.prompt = w.dir.prompt then w.before else some w.dir.prompt, some e.now⟩

/-- The clock is ahead of its last reading. -/
def Later (w : World) (e : Event) : Prop := ∀ t ∈ w.clock, t < e.now

instance (w : World) (e : Event) : Decidable (Later w e) :=
  inferInstanceAs (Decidable (∀ t ∈ w.clock, t < e.now))

/-- A patch of this content succeeds and changes the prompt. -/
def PatchChanges (prompt : Option String) (oldStr newStr : String) (replaceAll : Bool)
    (current : String) : Prop :=
  match host.fuzzyFindAndReplace current oldStr newStr replaceAll with
  | .ok result => passes host result.newContent ∧ prompt ≠ some result.newContent
  | .error _ => False

/-- A call does not save a snapshot without changing the prompt, and saves the prompt that it
changes: a patch of a prompt that is there succeeds, no update or patch writes what is there
already, and a rollback does not leave an empty prompt, which it does not save. -/
def Call.Reversible (dir : SkillDir) : Call → Prop
  | .update newPromptContext _ _ =>
    passes host newPromptContext → dir.prompt ≠ some newPromptContext
  | .patch oldStr newStr _ replaceAll _ =>
    (∀ current ∈ (nonempty dir.prompt).or (nonempty dir.inlinePrompt),
      PatchChanges host dir.prompt oldStr newStr replaceAll current) ∧
    (dir.prompt = some "" → nonempty dir.inlinePrompt = none)
  | .rollback _ =>
    dir.prompt = some "" → ∀ latest ∈ (sortedSnapshots dir.files).getLast?,
      ¬ passes host latest.content

/-- The call is reversible, and its year is written with as many digits as the others. -/
def Reversible (digits : ℕ) (w : World) (e : Event) : Prop :=
  yearWidth (dateOf e.now).year = digits ∧ e.call.Reversible host w.dir

instance (prompt : Option String) (oldStr newStr : String) (replaceAll : Bool) (current : String) :
    Decidable (PatchChanges host prompt oldStr newStr replaceAll current) := by
  unfold PatchChanges
  split <;> infer_instance

instance (dir : SkillDir) (call : Call) : Decidable (call.Reversible host dir) :=
  match call with
  | .update newPromptContext _ _ =>
    inferInstanceAs (Decidable (passes host newPromptContext → dir.prompt ≠ some newPromptContext))
  | .patch oldStr newStr _ replaceAll _ => inferInstanceAs (Decidable
    ((∀ current ∈ (nonempty dir.prompt).or (nonempty dir.inlinePrompt),
      PatchChanges host dir.prompt oldStr newStr replaceAll current) ∧
    (dir.prompt = some "" → nonempty dir.inlinePrompt = none)))
  | .rollback _ => inferInstanceAs (Decidable (dir.prompt = some "" →
    ∀ latest ∈ (sortedSnapshots dir.files).getLast?, ¬ passes host latest.content))

instance (digits : ℕ) (w : World) (e : Event) : Decidable (Reversible host digits w e) :=
  inferInstanceAs (Decidable (_ ∧ _))

/-! ## Names in order -/

/-- The files are snapshots, in the order of their instants, none of them after the last reading. -/
structure InOrder (digits : ℕ) (clock : Option Time) (files : List Snapshot) : Prop where
  names : ∀ f ∈ files, ∃ t pid, f.name = snapshotName t pid 0 ∧
    yearWidth (dateOf t).year = digits ∧ ∃ last ∈ clock, t ≤ last
  sorted : files.Pairwise fun f g => f.name < g.name

variable {digits : ℕ} {clock : Option Time} {files : List Snapshot} {now : Time} {pid : ℕ}

theorem snapshotName_lt {t u : Time} (h : t < u)
    (hwidth : yearWidth (dateOf t).year = yearWidth (dateOf u).year) (p q : ℕ) :
    snapshotName t p 0 < snapshotName u q 0 := by
  unfold snapshotName snapshotBase
  rw [List.append_assoc, List.append_assoc, List.append_assoc, List.append_assoc,
    append_lt_append_left_iff]
  exact compactText_append_lt h hwidth _ _

theorem InOrder.name_lt (h : InOrder digits clock files) (hlater : ∀ t ∈ clock, t < now)
    (hwidth : yearWidth (dateOf now).year = digits) {f : Snapshot} (hf : f ∈ files) :
    f.name < snapshotName now pid 0 := by
  obtain ⟨t, p, hname, hdigits, last, hlast, hle⟩ := h.names f hf
  rw [hname]
  exact snapshotName_lt (Nat.lt_of_le_of_lt hle (hlater last hlast))
    (hdigits.trans hwidth.symm) p pid

theorem InOrder.sublist (h : InOrder digits clock files) {files' : List Snapshot}
    (hsub : files'.Sublist files) : InOrder digits clock files' :=
  ⟨fun f hf => h.names f (hsub.subset hf), h.sorted.sublist hsub⟩

theorem InOrder.later (h : InOrder digits clock files) (hlater : ∀ t ∈ clock, t < now) :
    InOrder digits (some now) files := by
  refine ⟨fun f hf => ?_, h.sorted⟩
  obtain ⟨t, p, hname, hdigits, last, hlast, hle⟩ := h.names f hf
  exact ⟨t, p, hname, hdigits, now, rfl, Nat.le_of_lt (Nat.lt_of_le_of_lt hle (hlater last hlast))⟩

theorem InOrder.push (h : InOrder digits clock files) (hlater : ∀ t ∈ clock, t < now)
    (hwidth : yearWidth (dateOf now).year = digits) (content : String) :
    InOrder digits (some now) (files ++ [⟨snapshotName now pid 0, content⟩]) := by
  have hold := h.later hlater
  refine ⟨fun f hf => ?_, ?_⟩
  · obtain hf | hf := List.mem_append.mp hf
    · exact hold.names f hf
    · obtain rfl := List.mem_singleton.mp hf
      exact ⟨now, pid, rfl, hwidth, now, rfl, Nat.le_refl now⟩
  · rw [List.pairwise_append]
    refine ⟨h.sorted, List.pairwise_singleton _ _, fun f hf g hg => ?_⟩
    obtain rfl := List.mem_singleton.mp hg
    exact h.name_lt hlater hwidth hf

theorem InOrder.sortedSnapshots_eq (h : InOrder digits clock files) :
    sortedSnapshots files = files := by
  unfold sortedSnapshots
  have hall : (files.filter fun f => snapshotPrefix.isPrefixOf f.name) = files := by
    rw [List.filter_eq_self]
    intro f hf
    obtain ⟨t, p, hname, -⟩ := h.names f hf
    rw [hname, List.isPrefixOf_iff_prefix]
    unfold snapshotName snapshotBase
    rw [List.append_assoc]
    exact List.prefix_append _ _
  rw [hall]
  exact List.Pairwise.insertionSort_eq (h.sorted.imp fun hlt => List.lt_asymm hlt)

theorem InOrder.removeFiles_take (h : InOrder digits clock files) (k : ℕ) :
    removeFiles files (files.take k) = files.drop k := by
  have hsorted := h.sorted
  rw [← List.take_append_drop k files, List.pairwise_append] at hsorted
  obtain ⟨-, -, hlt⟩ := hsorted
  unfold removeFiles
  conv_lhs => rw [← List.take_append_drop k files, List.filter_append]
  rw [List.take_append_drop, List.filter_eq_nil_iff.mpr, List.filter_eq_self.mpr,
    List.nil_append]
  · intro f hf
    rw [Bool.not_eq_true', Bool.eq_false_iff, ne_eq, hasFile_iff]
    rintro ⟨g, hg, hname⟩
    exact List.lt_irrefl _ (hname ▸ hlt g hg f hf)
  · intro f hf
    rw [Bool.not_eq_true', Bool.not_eq_false, hasFile_iff]
    exact ⟨f, hf, rfl⟩

theorem removeFiles_append_of_ne {latest : Snapshot} {name : List Char} (h : latest.name < name)
    (kept : List Snapshot) (content : String) :
    removeFiles (kept ++ [⟨name, content⟩]) [latest] =
      removeFiles kept [latest] ++ [⟨name, content⟩] := by
  unfold removeFiles
  rw [List.filter_append, List.filter_cons_of_pos, List.filter_nil]
  rw [Bool.not_eq_true', Bool.eq_false_iff, ne_eq, hasFile_iff]
  rintro ⟨f, hf, hname⟩
  rw [List.mem_singleton.mp hf] at hname
  exact List.lt_irrefl _ (hname ▸ h)

theorem InOrder.freeName_eq (h : InOrder digits clock files) (hlater : ∀ t ∈ clock, t < now)
    (hwidth : yearWidth (dateOf now).year = digits) :
    freeName files now pid = snapshotName now pid 0 := by
  have hfree : (!hasFile files (snapshotName now pid 0)) = true := by
    rw [Bool.not_eq_true', Bool.eq_false_iff, ne_eq, hasFile_iff]
    rintro ⟨f, hf, hname⟩
    have hlt : f.name < snapshotName now pid 0 := h.name_lt hlater hwidth hf
    exact List.lt_irrefl _ (hname ▸ hlt)
  unfold freeName
  dsimp only
  rw [List.range_succ_eq_map, List.find?_cons_of_pos]
  · rfl
  · exact hfree

variable {dir : SkillDir}

/-- **A snapshot goes on top of the stack**, and no more than the limit stay. -/
theorem files_saveRollbackSnapshot (h : InOrder digits clock dir.files)
    (hlater : ∀ t ∈ clock, t < now) (hwidth : yearWidth (dateOf now).year = digits)
    (content : String) : (saveRollbackSnapshot dir content now pid).files =
      dir.files.drop (dir.files.length + 1 - maxVersionHistory) ++
        [⟨snapshotName now pid 0, content⟩] := by
  have hpush := @InOrder.push _ _ _ _ pid h hlater hwidth content
  change removeFiles _ (List.take _ _) = _
  rw [h.freeName_eq hlater hwidth, hpush.sortedSnapshots_eq, hpush.removeFiles_take,
    List.length_append, List.length_singleton, List.drop_append_of_le_length]
  unfold maxVersionHistory
  omega

/-- The top of the stack is what the prompt was before its last change. -/
structure Sound (digits : ℕ) (w : World) : Prop where
  inOrder : InOrder digits w.clock w.dir.files
  cleared : w.dir.files ≠ [] → w.dir.inlinePrompt = none
  untouched : w.before = none → w.dir.files = []
  missing : w.dir.prompt = none → w.before = none
  top : ∀ c, w.before = some (some c) → w.dir.prompt ≠ some c ∧
    ∃ f, w.dir.files.getLast? = some f ∧ f.content = c

/-- What a rollback gives back, and that calls that fail leave everything as it is. -/
structure Undoes (digits : ℕ) (name : String) (w : World) : Prop where
  restores : ∀ c, w.before = some (some c) → ∀ author now pid,
    let (result, dir) := rollbackSkill host w.dir (load name w.dir) author now pid
    (passes host c → result.isOk) ∧ (result.isOk → dir.prompt = some c)
  unchanged : ∀ e, Later w e → Reversible host digits w e →
    ¬ (perform host name w.dir e).1.isOk → (perform host name w.dir e).2 = w.dir

variable {host} {name : String} {w : World} {e : Event}

theorem validate_of_passes {content : String} (h : passes host content) :
    validatePromptContent host content = .ok () := by
  unfold passes at h
  split at h
  · assumption
  · cases h

/-! ## One call -/

/-- A call that succeeds: a prompt is written, and the old one is on top of what is kept of the
stack. -/
structure Saves (dir dir' : SkillDir) (now : Time) (pid : ℕ) : Prop where
  written : dir'.prompt ≠ none
  cleared : dir'.inlinePrompt = none
  files : ∃ (kept : List Snapshot) (saved : Option String),
    dir'.files = kept ++ saved.toList.map (⟨snapshotName now pid 0, ·⟩) ∧
      kept.Sublist dir.files ∧ ∀ c, dir.prompt = some c → saved = some c

theorem Sound.saves (h : Sound digits w) (hlater : ∀ t ∈ w.clock, t < now)
    (hwidth : yearWidth (dateOf now).year = digits) {dir' : SkillDir}
    (hsaves : Saves w.dir dir' now pid) (hsame : dir'.prompt = w.dir.prompt → w.before = some none) :
    Sound digits ⟨dir', if dir'.prompt = w.dir.prompt then w.before else some w.dir.prompt,
      some now⟩ := by
  obtain ⟨kept, saved, hfiles, hkept, hsaved⟩ := hsaves.files
  refine ⟨?_, fun _ => hsaves.cleared, ?_, fun hmissing => absurd hmissing hsaves.written, ?_⟩
  · dsimp only
    rw [hfiles]
    have horder := h.inOrder.sublist hkept
    cases saved with
    | none =>
      rw [Option.toList_none, List.map_nil, List.append_nil]
      exact horder.later hlater
    | some content => exact horder.push hlater hwidth content
  · dsimp only
    split_ifs with hprompt
    · rw [hsame hprompt]
      exact nofun
    · exact nofun
  · dsimp only
    intro c hbefore
    split_ifs at hbefore with hprompt
    · cases (hsame hprompt).symm.trans hbefore
    · have hc := Option.some.inj hbefore
      refine ⟨fun h => hprompt (h.trans hc.symm), ⟨snapshotName now pid 0, c⟩, ?_, rfl⟩
      rw [hfiles, hsaved c hc]
      exact List.getLast?_concat

theorem Sound.saves_write (h : Sound digits w) (hlater : ∀ t ∈ w.clock, t < now)
    (hwidth : yearWidth (dateOf now).year = digits) {content : String}
    (hcontent : ∀ c, w.dir.prompt = some c → content = c)
    (version prompt changelog : String) (author : Option String) :
    Saves w.dir (writePrompt host (saveRollbackSnapshot w.dir content now pid) version prompt
      changelog author now) now pid := by
  refine ⟨nofun, rfl, _, some content, files_saveRollbackSnapshot h.inOrder hlater hwidth content,
    List.drop_sublist _ _, fun c hc => congrArg some (hcontent c hc)⟩

theorem nonempty_eq_some {text : Option String} {c : String} :
    nonempty text = some c ↔ text = some c ∧ c ≠ "" := by
  unfold nonempty
  rw [Option.filter_eq_some_iff, decide_eq_true_iff]

theorem promptContext_load {c : String} (hinline : dir.inlinePrompt = none)
    (hprompt : dir.prompt = some c) (hc : c ≠ "") : (load name dir).promptContext = some c := by
  unfold load
  dsimp only
  rw [hinline, nonempty_eq_some.mpr ⟨hprompt, hc⟩]
  rfl

theorem nonempty_load (name : String) (dir : SkillDir) :
    (nonempty dir.prompt).or (nonempty (load name dir).promptContext) =
      (nonempty dir.prompt).or (nonempty dir.inlinePrompt) := by
  unfold load
  dsimp only
  split_ifs with hinline
  · rfl
  · rw [Option.not_isSome_iff_eq_none] at hinline
    cases hprompt : nonempty dir.prompt with
    | some c => rfl
    | none => rfl

theorem passes_of_validate {content : String} (h : validatePromptContent host content = .ok ()) :
    passes host content := by
  unfold passes
  rw [h]

/-- What a call does to a sound world: it fails and leaves everything as it is, or it saves the old
prompt, and leaves the prompt as it was only if that was not there before. -/
def Keeps (w : World) (now : Time) (pid : ℕ) (out : Except SkillError EvolutionResult × SkillDir) :
    Prop :=
  (¬ out.1.isOk ∧ out.2 = w.dir) ∨
    out.1.isOk ∧ Saves w.dir out.2 now pid ∧
      (out.2.prompt = w.dir.prompt → w.before = some none)

variable {author : Option String}

theorem Sound.update (h : Sound digits w) (hlater : ∀ t ∈ w.clock, t < now)
    (hwidth : yearWidth (dateOf now).year = digits) {newPromptContext changelog : String}
    (hcall : (Call.update newPromptContext changelog author).Reversible host w.dir) :
    Keeps w now pid
      (updateSkill host w.dir (load name w.dir) newPromptContext changelog author now pid) := by
  unfold updateSkill
  cases hvalid : validatePromptContent host newPromptContext with
  | error err => exact .inl ⟨Bool.false_ne_true, rfl⟩
  | ok _ =>
    refine .inr ⟨rfl, ?_, fun hsame => absurd hsame.symm (hcall (passes_of_validate hvalid))⟩
    dsimp only
    cases hold : w.dir.prompt.or (load name w.dir).promptContext with
    | none =>
      refine ⟨nofun, rfl, w.dir.files, none, (List.append_nil _).symm, .refl _, fun c hc => ?_⟩
      rw [hc] at hold
      cases hold
    | some oldContent =>
      refine h.saves_write hlater hwidth (fun c hc => ?_) _ _ _ _
      rw [hc] at hold
      exact (Option.some.inj hold).symm

theorem Sound.patch (h : Sound digits w) (hlater : ∀ t ∈ w.clock, t < now)
    (hwidth : yearWidth (dateOf now).year = digits) {oldStr newStr changelog : String}
    {replaceAll : Bool}
    (hcall : (Call.patch oldStr newStr changelog replaceAll author).Reversible host w.dir) :
    Keeps w now pid (patchSkill host w.dir (load name w.dir) oldStr newStr changelog replaceAll
      author now pid) := by
  obtain ⟨hchanges, hempty⟩ := hcall
  unfold patchSkill
  rw [nonempty_load]
  cases hcurrent : (nonempty w.dir.prompt).or (nonempty w.dir.inlinePrompt) with
  | none => exact .inl ⟨Bool.false_ne_true, rfl⟩
  | some current =>
    have hpatch := hchanges current hcurrent
    unfold PatchChanges at hpatch
    dsimp only
    cases hresult : host.fuzzyFindAndReplace current oldStr newStr replaceAll with
    | error err =>
      rw [hresult] at hpatch
      exact hpatch.elim
    | ok result =>
      rw [hresult] at hpatch
      obtain ⟨hpasses, hprompt⟩ := hpatch
      dsimp only
      rw [validate_of_passes hpasses]
      refine .inr ⟨rfl, ?_, fun hsame => absurd hsame.symm hprompt⟩
      refine h.saves_write hlater hwidth (fun c hc => ?_) _ _ _ _
      -- an empty prompt has no other prompt beside it, so that there is nothing to patch
      obtain rfl | hne := eq_or_ne c ""
      · rw [hempty hc, Option.or_none] at hcurrent
        obtain ⟨hprompt, hne⟩ := nonempty_eq_some.mp hcurrent
        exact absurd (Option.some.inj (hc.symm.trans hprompt)).symm hne
      · rw [nonempty_eq_some.mpr ⟨hc, hne⟩] at hcurrent
        exact (Option.some.inj hcurrent).symm

theorem Sound.rollback (h : Sound digits w) (hlater : ∀ t ∈ w.clock, t < now)
    (hwidth : yearWidth (dateOf now).year = digits)
    (hcall : (Call.rollback author).Reversible host w.dir) :
    Keeps w now pid (rollbackSkill host w.dir (load name w.dir) author now pid) := by
  unfold rollbackSkill
  cases hlatest : (sortedSnapshots w.dir.files).getLast? with
  | none => exact .inl ⟨Bool.false_ne_true, rfl⟩
  | some latest =>
    dsimp only
    cases hvalid : validatePromptContent host latest.content with
    | error err => exact .inl ⟨Bool.false_ne_true, rfl⟩
    | ok _ =>
      rw [h.inOrder.sortedSnapshots_eq] at hlatest
      have hfiles : w.dir.files ≠ [] := fun hnil => by
        rw [hnil] at hlatest
        cases hlatest
      obtain ⟨c, hc⟩ : ∃ c, w.dir.prompt = some c := Option.ne_none_iff_exists'.mp fun hnone =>
        hfiles (h.untouched (h.missing hnone))
      have hne : c ≠ "" := by
        rintro rfl
        rw [← h.inOrder.sortedSnapshots_eq] at hlatest
        exact hcall hc latest hlatest (passes_of_validate hvalid)
      dsimp only
      rw [promptContext_load (h.cleared hfiles) hc hne]
      dsimp only
      refine .inr ⟨rfl, ⟨nofun, rfl, ?_⟩, fun hsame => ?_⟩
      · have hmem := List.mem_of_getLast? hlatest
        refine ⟨removeFiles (w.dir.files.drop (w.dir.files.length + 1 - maxVersionHistory))
          [latest], some c, ?_, List.filter_sublist.trans (List.drop_sublist _ _), ?_⟩
        · change removeFiles (saveRollbackSnapshot w.dir c now pid).files [latest] = _
          rw [files_saveRollbackSnapshot h.inOrder hlater hwidth]
          exact removeFiles_append_of_ne (h.inOrder.name_lt hlater hwidth hmem) _ _
        · exact fun c' hc' => hc.symm.trans hc'
      · -- the top of the stack differs from the prompt
        cases hbefore : w.before with
        | none => exact absurd (h.untouched hbefore) hfiles
        | some before =>
          cases before with
          | none => rfl
          | some c' =>
            obtain ⟨hdiffers, f, hf, rfl⟩ := h.top c' hbefore
            obtain rfl := Option.some.inj (hlatest.symm.trans hf)
            exact absurd hsame.symm hdiffers

/-- **A reversible call keeps the stack.** -/
theorem Sound.perform (h : Sound digits w) (hlater : Later w e) (he : Reversible host digits w e) :
    Keeps w e.now e.pid (perform host name w.dir e) := by
  obtain ⟨call, now, pid⟩ := e
  obtain ⟨hwidth, hcall⟩ := he
  cases call with
  | update newPromptContext changelog author => exact h.update hlater hwidth hcall
  | patch oldStr newStr changelog replaceAll author => exact h.patch hlater hwidth hcall
  | rollback author => exact h.rollback hlater hwidth hcall

theorem sound_step (h : Sound digits w) (hlater : Later w e) (he : Reversible host digits w e) :
    Sound digits (step host name w e) := by
  obtain ⟨-, hsame⟩ | ⟨-, hsaves, hsame⟩ := @Sound.perform _ _ name _ _ h hlater he
  · unfold step
    dsimp only
    rw [hsame, if_pos rfl]
    exact ⟨h.inOrder.later hlater, h.cleared, h.untouched, h.missing, h.top⟩
  · exact h.saves hlater he.1 hsaves hsame

theorem Sound.undoes (h : Sound digits w) : Undoes host digits name w := by
  refine ⟨fun c hbefore author now pid => ?_, fun e hlater he hfail => ?_⟩
  · obtain ⟨-, f, hf, rfl⟩ := h.top c hbefore
    unfold rollbackSkill
    rw [h.inOrder.sortedSnapshots_eq, hf]
    dsimp only
    cases hvalid : validatePromptContent host f.content with
    | error e =>
      refine ⟨fun hpasses => ?_, fun hok => absurd hok Bool.false_ne_true⟩
      cases hvalid.symm.trans (validate_of_passes hpasses)
    | ok _ => exact ⟨fun _ => rfl, fun _ => rfl⟩
  · obtain ⟨-, hsame⟩ | ⟨hok, -⟩ := @Sound.perform _ _ name _ _ h hlater he
    · exact hsame
    · exact absurd hok hfail

theorem sound_start (hnew : dir.files = []) : Sound digits ⟨dir, none, none⟩ := by
  refine ⟨⟨?_, ?_⟩, fun h => absurd hnew h, fun _ => hnew, fun _ => rfl, nofun⟩
  · dsimp only
    rw [hnew]
    exact fun f hf => absurd hf List.not_mem_nil
  · dsimp only
    rw [hnew]
    exact .nil

/-- **After every run of reversible calls on a skill, a rollback undoes the last change**, and calls
that fail change nothing. -/
theorem rollback_restores (host : Host) (name : String) (digits : ℕ)
    (hnew : dir.files = []) {es : List Event}
    (hlater : Along (step host name) Later ⟨dir, none, none⟩ es)
    (hes : Along (step host name) (Reversible host digits) ⟨dir, none, none⟩ es) :
    Undoes host digits name (after (step host name) ⟨dir, none, none⟩ es) :=
  (invariant (I := Sound digits) (fun _ _ hsound he => sound_step hsound he.1 he.2)
    (sound_start hnew) (along_and (step host name) hlater hes)).undoes

/-- Texts that are all harmless, and patches of texts that are found as they are. -/
def plainHost : Host where
  scanPromptContent _ := []
  sha256Hex := id
  fuzzyFindAndReplace content oldStr newStr _ :=
    if Text.containsStr content oldStr then
      .ok ⟨Text.replaceStr content oldStr newStr, 1, .exact⟩
    else .error (.invalidManifest "Could not find old_string in content")
  semverBump _ := none

/-- A skill that has just been created. -/
def created (prompt : String) : SkillDir :=
  ⟨some prompt, "0.1.0", none, none, ⟨[], 0, 1, 0⟩⟩

theorem rollback_restores_update :
    let e : Event := ⟨.update "two" "" none, 1, 7⟩
    Undoes plainHost 4 "skill" (after (step plainHost "skill") ⟨created "one", none, none⟩ [e]) :=
  rollback_restores plainHost "skill" 4 rfl (by decide) (by decide)

/-- After an update and a patch that fails, the rollback gives back what the update wrote. -/
theorem failed_patch_hides_update :
    let es : List Event := [⟨.update "two" "" none, 1, 7⟩, ⟨.patch "six" "ten" "" false none, 2, 7⟩]
    let w := after (step plainHost "skill") ⟨created "one", none, none⟩ es
    let (result, dir) := rollbackSkill plainHost w.dir (load "skill" w.dir) none 3 7
    Along (step plainHost "skill") Later ⟨created "one", none, none⟩ es ∧
      w.before = some (some "one") ∧ passes plainHost "one" ∧ result.isOk ∧
      dir.prompt = some "two" := by
  decide

end LibreFang.Skills
