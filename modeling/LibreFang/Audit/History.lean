import LibreFang.Lib.Runs
import LibreFang.Audit.Chain

/-!
# The history behind the log

Every log is the end of a history that only grows: recording appends to the history, and the cap
drain, `trim` and `prune` move the start of the log further into it.

* `Tracks base hist log`: the log is the end of the chain `hist`, which starts at `base`.
* **`audit_run_sound`**: a run whose anchor writes succeed keeps the log verifiable.
* **`seq_increasing_iff`**: sequence numbers grow as long as no record follows a full drop.
-/

namespace LibreFang.Audit

variable {P : Platform}

/-- The chain anchor after a prefix was dropped, when it was `base` before. -/
def anchorAfter (base : Option String) (dropped : List AuditEntry) : Option String :=
  match dropped.getLast? with
  | some e => some e.hash
  | none => base

@[simp] theorem anchorAfter_nil (base : Option String) : anchorAfter base [] = base := rfl

theorem anchorAfter_eq_none {base : Option String} {dropped : List AuditEntry}
    (h : anchorAfter base dropped = none) : dropped = [] := by
  unfold anchorAfter at h
  split at h
  · cases h
  · exact List.getLast?_eq_none_iff.mp ‹_›

theorem anchorAfter_getD (base : Option String) (dropped : List AuditEntry) :
    (anchorAfter base dropped).getD genesis = chainTip (base.getD genesis) dropped := by
  unfold anchorAfter
  split
  · rename_i e he
    rw [chainTip, HashChain.tip_of_getLast? he]
    rfl
  · rename_i he
    rw [List.getLast?_eq_none_iff.mp he]
    rfl

variable {es : List AuditEntry}

theorem anchorAfter_append_take (base : Option String) (dropped : List AuditEntry) {k : ℕ}
    (hk : 0 < k) (hle : k ≤ es.length) :
    es[k - 1]?.map AuditEntry.hash = anchorAfter base (dropped ++ es.take k) := by
  obtain ⟨j, rfl⟩ : ∃ j, k = j + 1 := ⟨k - 1, by omega⟩
  have hj : es[j]? = some es[j] := List.getElem?_eq_getElem hle
  have hlast : (dropped ++ es.take (j + 1)).getLast? = some es[j] := by
    rw [List.take_add_one, hj, Option.toList_some, ← List.append_assoc, List.getLast?_concat]
  rw [Nat.add_sub_cancel, hj, anchorAfter, hlast]
  rfl

/-- The log is the end of the chain `hist`, and its anchor and tip are those of the chain. -/
structure Tracks (P : Platform) (base : Option String) (hist : List AuditEntry) (log : AuditLog) :
    Prop where
  chain : IsChain P (base.getD genesis) hist
  start : hist = [] → base = none
  tip : log.tip = chainTip (base.getD genesis) hist
  window : ∃ dropped, hist = dropped ++ log.entries ∧ log.chainAnchor = anchorAfter base dropped

/-- The anchor file, when configured, names the number of entries and the tip. -/
def Witnessed (P : Platform) (log : AuditLog) : Prop :=
  ∀ a ∈ log.anchor, readAnchor P a.file = .ok (some ⟨asU64 log.entries.length, log.tip⟩)

section Tracks

variable {base : Option String} {hist : List AuditEntry} {log : AuditLog}

theorem Tracks.chainAnchor_getD (h : Tracks P base hist log) :
    IsChain P (log.chainAnchor.getD genesis) log.entries ∧
      log.tip = chainTip (log.chainAnchor.getD genesis) log.entries := by
  obtain ⟨dropped, hhist, hanchor⟩ := h.window
  have hchain := h.chain
  have htip := h.tip
  rw [hhist] at hchain htip
  rw [hanchor, anchorAfter_getD]
  exact ⟨(HashChain.linked_append.mp hchain).2, htip.trans (HashChain.tip_append _ _ _)⟩

theorem Tracks.isDigest_tip (h : Tracks P base hist log) : IsDigest log.tip := by
  rw [h.tip]
  by_cases hnil : hist = []
  · rw [hnil, h.start hnil]
    exact isDigest_genesis
  · rw [chainTip, HashChain.tip_of_getLast? (List.getLast?_eq_some_getLast hnil),
      ← HashChain.digest_of_mem h.chain _ (List.getLast_mem hnil)]
    exact isDigest_recomputed P _

theorem Tracks.verify (h : Tracks P base hist log) (hw : Witnessed P log) :
    verifyIntegrity P log = .ok () := by
  obtain ⟨hchain, htip⟩ := h.chainAnchor_getD
  refine verifyIntegrity_eq_ok.mpr ⟨hchain, fun a ha => ?_⟩
  rw [hw a ha, htip]

theorem Tracks.drop (h : Tracks P base hist log) {k : ℕ} (hk : 0 < k)
    (hle : k ≤ log.entries.length) {log' : AuditLog} (he : log'.entries = log.entries.drop k)
    (ht : log'.tip = log.tip) (ha : log'.chainAnchor = log.entries[k - 1]?.map AuditEntry.hash) :
    Tracks P base hist log' := by
  obtain ⟨dropped, hhist, -⟩ := h.window
  refine ⟨h.chain, h.start, ht.trans h.tip, dropped ++ log.entries.take k, ?_, ?_⟩
  · rw [he, List.append_assoc, List.take_append_drop, hhist]
  · rw [ha, anchorAfter_append_take base dropped hk hle]

theorem tracks_pushed (h : Tracks P base hist log) (db : Option Table) (ev : Event) (now : ℤ) :
    Tracks P base (hist ++ [log.newEntry P ev now]) (log.pushed db (log.newEntry P ev now)) := by
  obtain ⟨dropped, hhist, hanchor⟩ := h.window
  refine ⟨HashChain.linked_concat.mpr ⟨h.chain, h.tip, rfl⟩, by simp, ?_, dropped, ?_, hanchor⟩
  · rw [chainTip, HashChain.tip_concat]
    rfl
  · simp [AuditLog.pushed, hhist]

theorem tracks_capDrain (h : Tracks P base hist log) : Tracks P base hist log.capDrain := by
  unfold AuditLog.capDrain
  split_ifs with hlen
  · have hpos : 0 < log.entries.length - maxAuditEntries := Nat.sub_pos_of_lt hlen
    have hle : log.entries.length - maxAuditEntries ≤ log.entries.length := Nat.sub_le _ _
    generalize log.entries.length - maxAuditEntries = overflow at hpos hle ⊢
    exact h.drop hpos hle rfl rfl rfl
  · exact h

theorem tracks_writeAnchor (h : Tracks P base hist log) (ok : Bool) :
    Tracks P base hist (log.writeAnchor ok) := ⟨h.chain, h.start, h.tip, h.window⟩

/-- **One call** keeps the log the end of its history. -/
theorem tracks_step (h : Tracks P base hist log) (op : Op) :
    Tracks P base (hist ++ (recorded P log op).toList) (step P log op) := by
  obtain ⟨hs, hr, -⟩ | ⟨ev, now, io, db, -, -, hr, hs⟩ | ⟨hr, hpos, hs⟩ := step_cases P log op
  · rw [hs, hr, Option.toList_none, List.append_nil]
    exact h
  · rw [hs, hr, Option.toList_some]
    exact tracks_writeAnchor (tracks_capDrain (tracks_pushed h db ev now)) _
  · rw [hs, hr, Option.toList_none, List.append_nil]
    exact h.drop hpos (dropCount_le log op) rfl rfl rfl

/-- **A run** keeps the log the end of its history. -/
theorem tracks_run (h : Tracks P base hist log) (ops : List Op) :
    Tracks P base (hist ++ recordedAlong P log ops) (Runs.after (step P) log ops) := by
  induction ops generalizing hist log with
  | nil => rw [recordedAlong, List.append_nil]; exact h
  | cons op ops ih =>
    rw [recordedAlong, ← List.append_assoc]
    exact ih (tracks_step h op)

theorem witnessed_writeAnchor (h : IsDigest log.tip) : Witnessed P (log.writeAnchor true) := by
  intro a ha
  obtain ⟨b, -, rfl⟩ := Option.map_eq_some_iff.mp ha
  rw [if_pos rfl]
  exact readAnchor_formatAnchorLine (asU64_lt _) h

/-- **One call** whose anchor write succeeds keeps the anchor file up to date. -/
theorem witnessed_step (h : Tracks P base hist log) (hw : Witnessed P log) {op : Op}
    (hok : op.io.anchorOk = true) : Witnessed P (step P log op) := by
  obtain ⟨hs, -, -⟩ | ⟨ev, now, io, db, rfl, -, -, hs⟩ | ⟨-, hpos, hs⟩ := step_cases P log op
  · rw [hs]
    exact hw
  · rw [hs, show io.anchorOk = true from hok]
    exact witnessed_writeAnchor (tracks_capDrain (tracks_pushed h db ev now)).isDigest_tip
  · rw [hs, AuditLog.dropPrefix, hok]
    exact witnessed_writeAnchor h.isDigest_tip

theorem witnessed_run (h : Tracks P base hist log) (hw : Witnessed P log) {ops : List Op}
    (hok : ∀ op ∈ ops, op.io.anchorOk = true) : Witnessed P (Runs.after (step P) log ops) := by
  induction ops generalizing hist log with
  | nil => exact hw
  | cons op ops ih =>
    exact ih (tracks_step h op) (witnessed_step h hw (hok op List.mem_cons_self))
      fun o ho => hok o (List.mem_cons_of_mem _ ho)

end Tracks

/-! ## Opening a log -/

/-- A log as its constructors build it, on a database and an anchor file that verify. -/
inductive Opened (P : Platform) : AuditLog → Prop
  | new : Opened P new
  | withDb (t : Table) (h : verifyIntegrity P (withDb P t) = .ok ()) : Opened P (withDb P t)
  | withDbAnchored (t : Table) (a : Anchor) (anchorOk : Bool)
      (h : verifyIntegrity P (withDbAnchored P t a anchorOk) = .ok ()) :
      Opened P (withDbAnchored P t a anchorOk)

theorem recoveredAnchor_getD {P : Platform} {a : String}
    (h : IsChain P a es) : es = [] ∨ (recoveredAnchor es).getD genesis = a := by
  cases es with
  | nil => exact Or.inl rfl
  | cons e es =>
    right
    have he : e.prevHash = a := h.1
    unfold recoveredAnchor
    simp only [List.head?_cons]
    split_ifs with hg
    · exact he
    · rw [not_not] at hg
      exact hg.symm.trans he

theorem tracks_withDb {t : Table} (h : IsChain P ((recoveredAnchor (load P t)).getD genesis)
    (load P t)) : Tracks P (recoveredAnchor (load P t)) (load P t) (withDb P t) where
  chain := h
  start hnil := by rw [hnil]; rfl
  tip := by
    simp only [withDb]
    cases hl : (load P t).getLast? with
    | none =>
      rw [List.getLast?_eq_none_iff.mp hl]
      rfl
    | some e =>
      rw [chainTip, HashChain.tip_of_getLast? hl]
      rfl
  window := ⟨[], rfl, rfl⟩

section Anchored

variable (t : Table) (a : Anchor) (ok : Bool)

@[simp] theorem withDbAnchored_entries : (withDbAnchored P t a ok).entries = load P t := by
  simp only [withDbAnchored]
  split <;> rfl

@[simp] theorem withDbAnchored_chainAnchor :
    (withDbAnchored P t a ok).chainAnchor = recoveredAnchor (load P t) := by
  simp only [withDbAnchored]
  split <;> rfl

@[simp] theorem withDbAnchored_tip : (withDbAnchored P t a ok).tip = (withDb P t).tip := by
  simp only [withDbAnchored]
  split <;> rfl

@[simp] theorem withDbAnchored_db : (withDbAnchored P t a ok).db = some t := by
  simp only [withDbAnchored]
  split <;> rfl

end Anchored

variable {log : AuditLog}

theorem Opened.tracks (h : Opened P log) : Tracks P log.chainAnchor log.entries log := by
  cases h with
  | new => exact ⟨trivial, fun _ => rfl, rfl, [], rfl, rfl⟩
  | withDb t h => exact tracks_withDb (verifyIntegrity_eq_ok.mp h).1
  | withDbAnchored t a ok h =>
    have hchain := (verifyIntegrity_eq_ok.mp h).1
    rw [withDbAnchored_entries, withDbAnchored_chainAnchor] at hchain ⊢
    have ht := tracks_withDb hchain
    exact ⟨hchain, ht.start, (withDbAnchored_tip t a ok).trans ht.tip, [], by simp, by simp⟩

theorem Opened.witnessed (h : Opened P log) : Witnessed P log := by
  have htip := h.tracks.chainAnchor_getD.2
  cases h with
  | new => intro a ha; cases ha
  | withDb t h => intro a ha; cases ha
  | withDbAnchored t a ok h =>
    intro b hb
    rw [(verifyIntegrity_eq_ok.mp h).2 b hb, ← htip]

/-- **Every run keeps the log verifiable**: the chain and the anchor file verify, the tip is the
last hash (the chain anchor when nothing is left, genesis when nothing was recorded), and a
failed INSERT changes nothing. -/
theorem audit_run_sound (P : Platform) (h : Opened P log) (ops : List Op)
    (hok : ∀ op ∈ ops, op.io.anchorOk = true) :
    verifyIntegrity P (Runs.after (step P) log ops) = .ok () ∧
      (Runs.after (step P) log ops).tip =
        (match (Runs.after (step P) log ops).entries.getLast? with
          | some e => e.hash
          | none => (Runs.after (step P) log ops).chainAnchor.getD genesis) ∧
      (log.entries ++ recordedAlong P log ops = [] →
        (Runs.after (step P) log ops).tip = genesis) ∧
      ∀ ev now io, persist P io.dbOk ((Runs.after (step P) log ops).newEntry P ev now)
          (Runs.after (step P) log ops).db = none →
        step P (Runs.after (step P) log ops) (.record ev now io) =
          Runs.after (step P) log ops := by
  have ht := tracks_run h.tracks ops
  have hw := witnessed_run h.tracks h.witnessed hok
  generalize Runs.after (step P) log ops = final at ht hw ⊢
  refine ⟨ht.verify hw, ?_, fun hnil => ?_, fun ev now io hp => recordWithContext_of_none hp⟩
  · rw [ht.chainAnchor_getD.2]
    cases hl : final.entries.getLast? with
    | none =>
      rw [List.getLast?_eq_none_iff.mp hl]
      rfl
    | some e => exact HashChain.tip_of_getLast? hl
  · rw [ht.tip, hnil, ht.start hnil]
    rfl

/-- Recording the sample call on the first of January. -/
def sampleRecord : Op :=
  .record ⟨"agent-1", .ToolInvoke, "ls", "ok", none, none⟩ 1704067200000000000 ⟨true, true⟩

theorem audit_run_sound_sample :
    verifyIntegrity samplePlatform (Runs.after (step samplePlatform) new [sampleRecord]) = .ok () :=
  (audit_run_sound samplePlatform .new [sampleRecord] (by decide)).1

/-! ## Sequence numbers -/

/-- A record whose INSERT succeeds finds an entry, or nothing was ever dropped. -/
def RecordsOnto (P : Platform) (log : AuditLog) (op : Op) : Prop :=
  recorded P log op ≠ none → log.entries ≠ [] ∨ log.chainAnchor = none

/-- Sequence numbers grow along the entries. -/
def SeqIncreasing (es : List AuditEntry) : Prop := es.Pairwise fun a b => a.seq < b.seq

theorem seqIncreasing_load (t : Table) : SeqIncreasing (load P t) := by
  refine t.sorted.filterMap _ fun a b hab x hx y hy => ?_
  simp only [decodeRow] at hx hy
  split_ifs at hx hy
  obtain rfl := Option.some.inj hx
  obtain rfl := Option.some.inj hy
  simp only
  omega

theorem Opened.seqIncreasing (h : Opened P log) : SeqIncreasing log.entries := by
  cases h with
  | new => exact List.Pairwise.nil
  | withDb t h => exact seqIncreasing_load t
  | withDbAnchored t a ok h =>
    rw [withDbAnchored_entries]
    exact seqIncreasing_load t

theorem seqIncreasing_concat {e : AuditEntry} :
    SeqIncreasing (es ++ [e]) ↔ SeqIncreasing es ∧ ∀ d ∈ es, d.seq < e.seq := by
  simp [SeqIncreasing, List.pairwise_append]

section Sequence

variable {base : Option String} {hist : List AuditEntry} {log : AuditLog}

theorem nextSeq_of_getLast? {e : AuditEntry} (h : log.entries.getLast? = some e) :
    log.nextSeq = e.seq + 1 := by
  rw [AuditLog.nextSeq, h]

theorem nextSeq_of_nil (h : log.entries = []) : log.nextSeq = 0 := by
  rw [AuditLog.nextSeq, h]
  rfl

theorem seqIncreasing_newEntry (h : Tracks P base hist log) (hs : SeqIncreasing hist) (ev : Event)
    (now : ℤ) : SeqIncreasing (hist ++ [log.newEntry P ev now]) ↔
      log.entries ≠ [] ∨ log.chainAnchor = none := by
  obtain ⟨dropped, hhist, hanchor⟩ := h.window
  rw [seqIncreasing_concat, and_iff_right hs]
  have hseq : (log.newEntry P ev now).seq = log.nextSeq := rfl
  rw [hseq]
  cases hl : log.entries.getLast? with
  | some e =>
    have hne : log.entries ≠ [] := fun hnil => by simp [hnil] at hl
    refine iff_of_true (fun d hd => ?_) (Or.inl hne)
    rw [nextSeq_of_getLast? hl]
    -- the last entry of the log is the last of the history
    obtain ⟨init, hinit⟩ := List.getLast?_eq_some_iff.mp hl
    rw [hhist, hinit, ← List.append_assoc] at hs hd
    rcases List.mem_append.mp hd with hd | hd
    · have := (seqIncreasing_concat.mp hs).2 d hd
      omega
    · obtain rfl := List.mem_singleton.mp hd
      exact Nat.lt_succ_self _
  | none =>
    have hnil := List.getLast?_eq_none_iff.mp hl
    rw [nextSeq_of_nil hnil, hnil]
    rw [hnil, List.append_nil] at hhist
    constructor
    · intro hlt
      have hempty : hist = [] := by
        by_contra hne
        obtain ⟨d, hd⟩ := List.exists_mem_of_ne_nil _ hne
        exact absurd (hlt d hd) (Nat.not_lt_zero _)
      rw [hanchor, ← hhist, hempty, anchorAfter_nil]
      exact Or.inr (h.start hempty)
    · rintro (h | h)
      · exact absurd rfl h
      · rw [hanchor] at h
        rw [hhist, anchorAfter_eq_none h]
        simp

theorem seqIncreasing_run_iff (h : Tracks P base hist log) (hs : SeqIncreasing hist)
    (ops : List Op) : SeqIncreasing (hist ++ recordedAlong P log ops) ↔
      Runs.Along (step P) (RecordsOnto P) log ops := by
  induction ops generalizing hist log with
  | nil => simpa [recordedAlong, Runs.Along] using hs
  | cons op ops ih =>
    rw [recordedAlong, ← List.append_assoc, Runs.Along]
    have hstep : SeqIncreasing (hist ++ (recorded P log op).toList) ↔ RecordsOnto P log op := by
      obtain ⟨-, hr, -⟩ | ⟨ev, now, io, db, -, -, hr, -⟩ | ⟨hr, -, -⟩ := step_cases P log op
      · simpa [RecordsOnto, hr] using hs
      · rw [RecordsOnto, hr, Option.toList_some, seqIncreasing_newEntry h hs]
        simp
      · simpa [RecordsOnto, hr] using hs
    by_cases hon : RecordsOnto P log op
    · rw [and_iff_right hon]
      exact ih (tracks_step h op) (hstep.mpr hon)
    · refine iff_of_false (fun hall => hon (hstep.mp ?_)) fun hand => hon hand.1
      exact (List.pairwise_append.mp hall).1

end Sequence

/-- **Sequence numbers are never reused** in exactly the runs in which no entry is recorded after
the whole log was dropped. -/
theorem seq_increasing_iff (P : Platform) (h : Opened P log) (ops : List Op) :
    SeqIncreasing (log.entries ++ recordedAlong P log ops) ↔
      Runs.Along (step P) (RecordsOnto P) log ops :=
  seqIncreasing_run_iff h.tracks h.seqIncreasing ops

theorem seq_increasing_iff_sample :
    SeqIncreasing (new.entries ++ recordedAlong samplePlatform new [sampleRecord]) ↔
      Runs.Along (step samplePlatform) (RecordsOnto samplePlatform) new [sampleRecord] :=
  seq_increasing_iff samplePlatform .new [sampleRecord]

/-- Prune everything older than 30 days on the first of March. -/
def samplePrune : Op := .prune 30 1709251200000000000 ⟨true, true⟩

/-- Recording the sample call again on the first of March. -/
def sampleRecordLater : Op :=
  .record ⟨"agent-1", .ToolInvoke, "ls", "ok", none, none⟩ 1709251200000000000 ⟨true, true⟩

/-- After a prune of the whole log the next entry gets sequence number 0 again. -/
theorem seq_reused_after_prune :
    ¬∀ (P : Platform) (log : AuditLog), Opened P log → ∀ ops : List Op,
      SeqIncreasing (log.entries ++ recordedAlong P log ops) := by
  intro h
  have hs := h samplePlatform new .new [sampleRecord, samplePrune, sampleRecordLater]
  have hseq : (recordedAlong samplePlatform new
      [sampleRecord, samplePrune, sampleRecordLater]).map AuditEntry.seq = [0, 0] := by decide
  have := List.pairwise_map.mpr hs
  rw [show new.entries = [] from rfl, List.nil_append, hseq] at this
  simp at this

end LibreFang.Audit
