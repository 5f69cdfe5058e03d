import LibreFang.Audit.Reload

/-!
# The anchor after reopening

An honest run keeps the anchor file in step with the log in memory. A reopened log is built from
the table, so it verifies when the table holds what the log holds.

* `KeepsEntries`: the call neither drains at the cap nor drops the whole log.
* `Stored`: the table holds the entries of the log, and an empty log was never trimmed.
* **`reopen_verifies`**: after such a run the reopened log verifies.
-/

namespace LibreFang.Audit

variable {P : Platform}

/-! ## Deleting a prefix -/

theorem filter_seq_eq_drop {es : List AuditEntry} (hs : SeqIncreasing es) {k : ℕ} {e : AuditEntry}
    (he : es[k]? = some e) : es.filter (fun d => decide (e.seq ≤ d.seq)) = es.drop k := by
  induction es generalizing k with
  | nil => simp at he
  | cons d es ih =>
    obtain ⟨hd, hrest⟩ := List.pairwise_cons.mp hs
    cases k with
    | zero =>
      obtain rfl : d = e := by simpa using he
      rw [List.drop_zero, List.filter_eq_self]
      intro c hc
      rcases List.mem_cons.mp hc with rfl | hc
      · exact decide_eq_true le_rfl
      · exact decide_eq_true (hd c hc).le
    | succ k =>
      have he : es[k]? = some e := by simpa using he
      have hlt := hd e (List.mem_of_getElem? he)
      rw [List.filter_cons_of_neg (by simpa using hlt), ih hrest he, List.drop_succ_cons]

theorem load_deleteBelow (t : Table) (n : ℕ) :
    load P (t.deleteBelow n) = (load P t).filter fun e => decide (n ≤ e.seq) := by
  unfold load Table.deleteBelow
  simp only
  induction t.rows with
  | nil => rfl
  | cons r rows ih =>
    cases hd : decodeRow P r with
    | none =>
      have hneg : r.seq < 0 := by
        by_contra hnn
        obtain ⟨e, he⟩ := exists_decodeRow (P := P) (not_lt.mp hnn)
        rw [hd] at he
        cases he
      rw [List.filter_cons_of_neg (by simp only [decide_eq_true_eq]; omega),
        List.filterMap_cons_none hd, ih]
    | some e =>
      have hseq := decodeRow_seq hd
      rw [List.filterMap_cons_some hd]
      by_cases hle : (n : ℤ) ≤ r.seq
      · rw [List.filter_cons_of_pos (by simpa using hle), List.filterMap_cons_some hd, ih,
          List.filter_cons_of_pos (by simp only [decide_eq_true_eq]; omega)]
      · rw [List.filter_cons_of_neg (by simpa using hle), ih,
          List.filter_cons_of_neg (by simp only [decide_eq_true_eq]; omega)]

/-! ## Runs that keep the table and the log together -/

/-- A call without an I/O failure; a recorded action reloads. -/
def Honest (P : Platform) (op : Op) : Prop :=
  op.io = ⟨true, true⟩ ∧
    ∀ ev now io, op = .record ev now io →
      ev.action.decodable = true ∧ UserReads P ev.userId

/-- The call neither drains entries at the cap nor drops every entry. -/
def KeepsEntries (P : Platform) (log : AuditLog) (op : Op) : Prop :=
  match op with
  | .record _ _ _ => log.entries.length < maxAuditEntries
  | _ => log.entries = [] ∨ dropCount P log op < log.entries.length

/-- The table holds the entries of the log, and an empty log was never trimmed. -/
structure Stored (P : Platform) (log : AuditLog) : Prop where
  table : ∃ t, log.db = some t ∧ load P t = log.entries
  anchored : log.anchor.isSome
  fresh : log.entries = [] → log.chainAnchor = none

variable {log : AuditLog}

theorem Stored.seqIncreasing (h : Stored P log) : SeqIncreasing log.entries := by
  obtain ⟨t, -, ht⟩ := h.table
  rw [← ht]
  exact seqIncreasing_load t

theorem stored_record (h : Stored P log) {ev : Event} {now : ℤ}
    (hev : ev.action.decodable = true ∧ UserReads P ev.userId)
    (hlen : log.entries.length < maxAuditEntries) :
    Stored P (step P log (.record ev now ⟨true, true⟩)) := by
  obtain ⟨t, hdb, hload⟩ := h.table
  obtain ⟨t', hp, hrows⟩ := persist_of_backed (P := P) ⟨hdb, seq_lt_nextSeq hload⟩ ev now
  have hread : decodeRow P (encodeRow P (log.newEntry P ev now)) =
      some (log.newEntry P ev now) := (decodeRow_encodeRow_iff hev.2).mpr hev.1
  rw [step, recordWithContext_of_some hp, capDrain_entries]
  · refine ⟨⟨t', rfl, ?_⟩, ?_, fun hnil => ?_⟩
    · rw [load_append hrows, hload, List.filterMap_cons_some hread]
      rfl
    · simpa [AuditLog.writeAnchor, AuditLog.pushed] using h.anchored
    · simp [AuditLog.pushed] at hnil
  · simp only [AuditLog.pushed, List.length_append, List.length_cons, List.length_nil]
    omega

theorem stored_dropPrefix (h : Stored P log) {k : ℕ}
    (hk : k < log.entries.length) : Stored P (log.dropPrefix k ⟨true, true⟩) := by
  obtain ⟨t, hdb, hload⟩ := h.table
  have he : log.entries[k]? = some log.entries[k] := List.getElem?_eq_getElem hk
  have hseq : log.firstSurvivorSeq k = log.entries[k].seq := by
    rw [AuditLog.firstSurvivorSeq, he]
  refine ⟨⟨t.deleteBelow (log.entries[k].seq), ?_, ?_⟩, ?_, fun hnil => ?_⟩
  · simp [AuditLog.dropPrefix, AuditLog.writeAnchor, hdb, hseq]
  · rw [load_deleteBelow, hload, filter_seq_eq_drop h.seqIncreasing he, dropPrefix_entries]
  · simpa [AuditLog.dropPrefix, AuditLog.writeAnchor] using h.anchored
  · rw [dropPrefix_entries, List.drop_eq_nil_iff] at hnil
    omega

/-- **One honest call** that keeps entries keeps the table and the log together. -/
theorem stored_step (h : Stored P log) {op : Op} (hop : Honest P op)
    (hk : KeepsEntries P log op) : Stored P (step P log op) := by
  obtain ⟨hs, -, -⟩ | ⟨ev, now, io, -, rfl, -, -, -⟩ | ⟨hr, hpos, hs⟩ := step_cases P log op
  · rw [hs]
    exact h
  · obtain rfl : io = ⟨true, true⟩ := hop.1
    exact stored_record h (hop.2 ev now _ rfl) hk
  · have hlt : dropCount P log op < log.entries.length := by
      have hle := dropCount_le (P := P) log op
      cases op with
      | record ev now io => exact absurd hpos (Nat.lt_irrefl 0)
      | trim policy now io =>
        refine hk.resolve_left fun hnil => ?_
        rw [hnil, List.length_nil] at hle
        omega
      | prune days now io =>
        refine hk.resolve_left fun hnil => ?_
        rw [hnil, List.length_nil] at hle
        omega
    rw [hs, hop.1]
    exact stored_dropPrefix h hlt

/-- **Reopening** the table and the anchor file of a stored, tracked and witnessed log. -/
theorem Stored.reopen {base : Option String} {hist : List AuditEntry}
    (h : Stored P log) (ht : Tracks P base hist log) (hw : Witnessed P log) {t : Table}
    {a : Anchor} (hdb : log.db = some t) (ha : log.anchor = some a) (ok : Bool) :
    verifyIntegrity P (withDbAnchored P t a ok) = .ok () := by
  obtain ⟨t', hdb', hload⟩ := h.table
  obtain rfl : t = t' := by simpa [hdb] using hdb'
  obtain ⟨hchain, htip⟩ := ht.chainAnchor_getD
  have hanchor : (recoveredAnchor log.entries).getD genesis = log.chainAnchor.getD genesis := by
    rcases recoveredAnchor_getD hchain with hnil | hr
    · rw [hnil, h.fresh hnil]
      rfl
    · exact hr
  have hfile : readAnchor P a.file = .ok (some ⟨asU64 log.entries.length, log.tip⟩) := hw a ha
  have hsame : withDbAnchored P t a ok = { withDb P t with anchor := some a } := by
    simp only [withDbAnchored, hfile]
  rw [hsame]
  refine verifyIntegrity_eq_ok.mpr ⟨?_, fun b hb => ?_⟩
  · simp only [withDb, hload]
    rw [hanchor]
    exact hchain
  · obtain rfl : a = b := by simpa using hb
    simp only [withDb, hload]
    rw [hanchor, ← htip]
    exact hfile

theorem stored_withDbAnchored {t : Table} {a : Anchor} {ok : Bool} :
    Stored P (withDbAnchored P t a ok) where
  table := ⟨t, withDbAnchored_db t a ok, (withDbAnchored_entries t a ok).symm⟩
  anchored := by
    simp only [withDbAnchored]
    split <;> simp [AuditLog.writeAnchor]
  fresh hnil := by
    rw [withDbAnchored_entries] at hnil
    rw [withDbAnchored_chainAnchor, hnil]
    rfl

/-- **No false alarm**: after an honest run in which no record meets a full buffer and no trim or
prune drops the whole log, reopening the database and the anchor file gives a log that verifies. -/
theorem reopen_verifies (P : Platform) {t : Table} {a : Anchor} {ok : Bool}
    (h : verifyIntegrity P (withDbAnchored P t a ok) = .ok ()) (ops : List Op)
    (hops : ∀ op ∈ ops, Honest P op)
    (hk : Runs.Along (step P) (KeepsEntries P) (withDbAnchored P t a ok) ops) :
    ∃ t' a', (Runs.after (step P) (withDbAnchored P t a ok) ops).db = some t' ∧
      (Runs.after (step P) (withDbAnchored P t a ok) ops).anchor = some a' ∧
      ∀ ok', verifyIntegrity P (withDbAnchored P t' a' ok') = .ok () := by
  have hopened : Opened P (withDbAnchored P t a ok) := .withDbAnchored t a ok h
  have ht := tracks_run hopened.tracks ops
  have hw := witnessed_run hopened.tracks hopened.witnessed fun op hop => by
    rw [(hops op hop).1]
  have hs : Stored P (Runs.after (step P) (withDbAnchored P t a ok) ops) := by
    have hstored : Stored P (withDbAnchored P t a ok) := stored_withDbAnchored
    clear h hopened ht hw
    generalize withDbAnchored P t a ok = log at hk hstored ⊢
    induction ops generalizing log with
    | nil => exact hstored
    | cons op ops ih =>
      exact ih (fun o ho => hops o (List.mem_cons_of_mem _ ho)) _ hk.2
        (stored_step hstored (hops op List.mem_cons_self) hk.1)
  obtain ⟨t', hdb, -⟩ := hs.table
  obtain ⟨a', ha⟩ := Option.isSome_iff_exists.mp hs.anchored
  exact ⟨t', a', hdb, ha, fun ok' => hs.reopen ht hw hdb ha ok'⟩

/-- A fresh log: an empty table, and an anchor path without a file. -/
def sampleLog : AuditLog :=
  withDbAnchored samplePlatform Table.empty ⟨"audit.anchor", .missing⟩ true

theorem verify_sampleLog : verifyIntegrity samplePlatform sampleLog = .ok () := by decide +kernel

theorem honest_sampleRecord : Honest samplePlatform sampleRecord := by
  refine ⟨rfl, fun ev now io h => ?_⟩
  simp only [sampleRecord, Op.record.injEq] at h
  obtain ⟨rfl, -, -⟩ := h
  exact ⟨rfl, fun u hu => by cases hu⟩

theorem reopen_verifies_sample :
    ∃ t' a', (Runs.after (step samplePlatform) sampleLog [sampleRecord]).db = some t' ∧
      (Runs.after (step samplePlatform) sampleLog [sampleRecord]).anchor = some a' ∧
      ∀ ok', verifyIntegrity samplePlatform (withDbAnchored samplePlatform t' a' ok') = .ok () :=
  reopen_verifies samplePlatform verify_sampleLog [sampleRecord]
    (fun op hop => by
      obtain rfl := List.mem_singleton.mp hop
      exact honest_sampleRecord)
    ⟨show (load samplePlatform Table.empty).length < maxAuditEntries by decide, trivial⟩

/-- The fresh log after the sample record and a prune of everything. -/
def samplePruned : AuditLog :=
  Runs.after (step samplePlatform) sampleLog [sampleRecord, samplePrune]

/-- After a prune of the whole log the reopened log reports an anchor mismatch. -/
theorem reopen_false_alarm :
    ¬∀ (P : Platform) (t : Table) (a : Anchor) (ok : Bool),
      verifyIntegrity P (withDbAnchored P t a ok) = .ok () →
      ∀ ops : List Op, (∀ op ∈ ops, Honest P op) →
        ∀ t' a', (Runs.after (step P) (withDbAnchored P t a ok) ops).db = some t' →
          (Runs.after (step P) (withDbAnchored P t a ok) ops).anchor = some a' →
          verifyIntegrity P (withDbAnchored P t' a' true) = .ok () := by
  intro h
  have hops : ∀ op ∈ [sampleRecord, samplePrune], Honest samplePlatform op := by
    intro op hop
    rcases List.mem_cons.mp hop with rfl | hop
    · exact honest_sampleRecord
    · obtain rfl := List.mem_singleton.mp hop
      exact ⟨rfl, fun ev now io h => by cases h⟩
  -- what is left on disk: no row, and an anchor that still names the dropped entry
  have hdisk : samplePruned.db = some Table.empty ∧ samplePruned.tip ≠ genesis ∧
      samplePruned.anchor.isSome := by decide +kernel
  obtain ⟨hdb, htip, hsome⟩ := hdisk
  obtain ⟨a', ha⟩ := Option.isSome_iff_exists.mp hsome
  have hopened : Opened samplePlatform sampleLog := .withDbAnchored _ _ _ verify_sampleLog
  have hfile := witnessed_run hopened.tracks hopened.witnessed
    (fun op hop => by rw [(hops op hop).1]) a' ha
  have hok := h samplePlatform _ _ true verify_sampleLog _ hops Table.empty a' hdb ha
  have hreopened := (verifyIntegrity_eq_ok.mp hok).2 a' (by
    simp only [withDbAnchored, hfile]
    rfl)
  rw [hfile] at hreopened
  simp only [Except.ok.injEq, Option.some.injEq, AnchorRecord.mk.injEq] at hreopened
  refine htip (hreopened.2.trans ?_)
  rw [withDbAnchored_entries, withDbAnchored_chainAnchor]
  rfl

end LibreFang.Audit
