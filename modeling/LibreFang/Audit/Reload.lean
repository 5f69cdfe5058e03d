import LibreFang.Audit.History

/-!
# Closing and reopening the log

What `with_db` and `with_db_anchored` read back of a log that was written by the operations.

* `Backed`, `step_backed`: recording appends the entry's row to the table.
* **`reload_faithful_iff`**: what was recorded reloads exactly when its actions decode.
* `Stored`, `stored_step`: as long as neither the cap nor a full drop intervenes, the table holds
  what the log holds; **`reopen_verifies`**: then a reopened log verifies.
-/

namespace LibreFang.Audit

variable {P : Platform}

/-! ## Rows -/

/-- The stored form of a user reads back. -/
def UserReads (P : Platform) (userId : Option UserId) : Prop :=
  ∀ u ∈ userId, P.parseUuid (P.showUuid u.bytes) = some u.bytes

theorem decodeRow_encodeRow {e : AuditEntry} (hu : UserReads P e.userId) :
    decodeRow P (encodeRow P e) = some { e with action := AuditAction.decode e.action.display } := by
  obtain ⟨seq, ts, ag, act, det, out, uid, ch, prev, hash⟩ := e
  have hnn : ¬((seq : ℤ) < 0) := by omega
  have huid : ((uid.map fun u => P.showUuid u.bytes).bind P.parseUuid).map UserId.mk = uid := by
    cases uid with
    | none => rfl
    | some u =>
      have : P.parseUuid (P.showUuid u.bytes) = some u.bytes := hu u rfl
      simp [this]
  simp only [decodeRow, encodeRow, if_neg hnn, huid, Int.toNat_natCast]

theorem decodeRow_encodeRow_iff {e : AuditEntry} (hu : UserReads P e.userId) :
    decodeRow P (encodeRow P e) = some e ↔ e.action.decodable = true := by
  rw [decodeRow_encodeRow hu, ← decode_display]
  obtain ⟨seq, ts, ag, act, det, out, uid, ch, prev, hash⟩ := e
  simp

theorem load_append {t t' : Table} {rs : List Row} (h : t'.rows = t.rows ++ rs) :
    load P t' = load P t ++ rs.filterMap (decodeRow P) := by
  rw [load, h, List.filterMap_append]
  rfl

theorem filterMap_decode_encode {es : List AuditEntry} (hu : ∀ e ∈ es, UserReads P e.userId) :
    (es.map (encodeRow P)).filterMap (decodeRow P) = es ↔
      ∀ e ∈ es, e.action.decodable = true := by
  induction es with
  | nil => simp
  | cons e es ih =>
    have hue := hu e List.mem_cons_self
    have ih := ih fun d hd => hu d (List.mem_cons_of_mem _ hd)
    rw [List.map_cons, List.filterMap_cons_some (decodeRow_encodeRow hue), List.cons.injEq, ih,
      List.forall_mem_cons, ← decodeRow_encodeRow_iff hue, decodeRow_encodeRow hue,
      Option.some.injEq]

variable {t : Table}

theorem table_insert_of_lt {r : Row} (h : ∀ x ∈ t.rows, x.seq < r.seq) :
    ∃ t', t.insert r = some t' ∧ t'.rows = t.rows ++ [r] := by
  unfold Table.insert
  split
  · rename_i rows hr
    refine ⟨_, rfl, ?_⟩
    rw [insertRow_of_lt h] at hr
    exact (Option.some.inj hr).symm
  · rename_i hr
    rw [insertRow_of_lt h] at hr
    cases hr

theorem decodeRow_seq {r : Row} {e : AuditEntry} (h : decodeRow P r = some e) :
    (e.seq : ℤ) = r.seq := by
  unfold decodeRow at h
  split_ifs at h
  obtain rfl := Option.some.inj h
  simp only
  omega

theorem exists_decodeRow {r : Row} (h : 0 ≤ r.seq) : ∃ e, decodeRow P r = some e := by
  unfold decodeRow
  rw [if_neg (by omega)]
  exact ⟨_, rfl⟩

theorem seq_le_getLast {es : List AuditEntry} (h : SeqIncreasing es) {e last : AuditEntry}
    (he : e ∈ es) (hl : es.getLast? = some last) : e.seq ≤ last.seq := by
  obtain ⟨init, rfl⟩ := List.getLast?_eq_some_iff.mp hl
  rcases List.mem_append.mp he with he | he
  · exact ((seqIncreasing_concat.mp h).2 e he).le
  · obtain rfl := List.mem_singleton.mp he
    exact le_rfl

variable {log : AuditLog}

theorem seq_lt_nextSeq (h : load P t = log.entries) : ∀ r ∈ t.rows, r.seq < log.nextSeq := by
  intro r hr
  by_cases hneg : r.seq < 0
  · omega
  · obtain ⟨e, he⟩ := exists_decodeRow (P := P) (not_lt.mp hneg)
    have hmem : e ∈ log.entries := by
      rw [← h]
      exact List.mem_filterMap.mpr ⟨r, hr, he⟩
    have hsorted : SeqIncreasing log.entries := h ▸ seqIncreasing_load t
    have hseq := decodeRow_seq he
    have hlast := List.getLast?_eq_some_getLast (List.ne_nil_of_mem hmem)
    have := seq_le_getLast hsorted hmem hlast
    rw [nextSeq_of_getLast? hlast]
    omega

/-! ## Recording into the table -/

theorem capDrain_getLast? (db : Option Table) (e : AuditEntry) :
    (log.pushed db e).capDrain.entries.getLast? = some e := by
  have hpushed : (log.pushed db e).entries = log.entries ++ [e] := rfl
  unfold AuditLog.capDrain
  split_ifs with h
  · have hlt : (log.pushed db e).entries.length - maxAuditEntries <
        (log.pushed db e).entries.length := Nat.sub_lt (by omega) (by decide)
    simp only [List.getLast?_drop]
    rw [if_neg (by omega), hpushed, List.getLast?_concat]
  · rw [hpushed, List.getLast?_concat]

theorem capDrain_entries (h : log.entries.length ≤ maxAuditEntries) :
    log.capDrain = log := if_neg (by omega)

/-- The table behind the log, with every row below the next sequence number. -/
def Backed (log : AuditLog) (t : Table) : Prop :=
  log.db = some t ∧ ∀ r ∈ t.rows, r.seq < log.nextSeq

theorem persist_of_backed (h : Backed log t) (ev : Event) (now : ℤ) :
    ∃ t', persist P true (log.newEntry P ev now) log.db = some (some t') ∧
      t'.rows = t.rows ++ [encodeRow P (log.newEntry P ev now)] := by
  obtain ⟨t', ht, hrows⟩ := table_insert_of_lt (t := t)
    (r := encodeRow P (log.newEntry P ev now)) h.2
  exact ⟨t', by rw [h.1, persist, if_pos rfl, ht, Option.map_some], hrows⟩

/-- A call of `record_with_context` whose INSERT succeeds, with its clock and anchor write. -/
def recordCall (c : Event × ℤ × Bool) : Op := .record c.1 c.2.1 ⟨true, c.2.2⟩

/-- **One successful record** appends the row of the entry. -/
theorem step_backed (h : Backed log t) (c : Event × ℤ × Bool) :
    ∃ t', Backed (step P log (recordCall c)) t' ∧
      recorded P log (recordCall c) = some (log.newEntry P c.1 c.2.1) ∧
      t'.rows = t.rows ++ [encodeRow P (log.newEntry P c.1 c.2.1)] := by
  obtain ⟨t', hp, hrows⟩ := persist_of_backed (P := P) h c.1 c.2.1
  have hs : (recordWithContext P c.1 c.2.1 ⟨true, c.2.2⟩ log).2 = _ := recordWithContext_of_some hp
  refine ⟨t', ⟨?_, fun r hr => ?_⟩, ?_, hrows⟩
  · rw [recordCall, step, hs, writeAnchor_db, capDrain_db]
    rfl
  · have hnext : (step P log (recordCall c)).nextSeq = log.nextSeq + 1 := by
      rw [recordCall, step, hs]
      exact nextSeq_of_getLast? (capDrain_getLast? _ _)
    rw [hnext]
    rw [hrows] at hr
    rcases List.mem_append.mp hr with hr | hr
    · have := h.2 r hr
      omega
    · obtain rfl := List.mem_singleton.mp hr
      have : (encodeRow P (log.newEntry P c.1 c.2.1)).seq = (log.nextSeq : ℤ) := rfl
      omega
  · rw [recordCall, recorded, hp]
    rfl

theorem run_backed (h : Backed log t) (calls : List (Event × ℤ × Bool)) :
    ∃ t', Backed (Runs.after (step P) log (calls.map recordCall)) t' ∧
      t'.rows = t.rows ++ (recordedAlong P log (calls.map recordCall)).map (encodeRow P) ∧
      (recordedAlong P log (calls.map recordCall)).map (fun e => (e.action, e.userId)) =
        calls.map fun c => (c.1.action, c.1.userId) := by
  induction calls generalizing log t with
  | nil => exact ⟨t, h, by simp [recordedAlong], rfl⟩
  | cons c calls ih =>
    obtain ⟨t₁, h₁, hr, hrows⟩ := step_backed (P := P) h c
    obtain ⟨t', h', hrows', hall⟩ := ih h₁
    refine ⟨t', h', ?_, ?_⟩
    · rw [hrows', hrows, List.map_cons, recordedAlong, hr]
      simp
    · rw [List.map_cons, recordedAlong, hr, List.map_append, hall]
      rfl

theorem Opened.backed (h : Opened P log) (hdb : log.db = some t) :
    load P t = log.entries ∧ Backed log t := by
  have hload : load P t = log.entries := by
    cases h with
    | new => cases hdb
    | withDb t' h =>
      obtain rfl : t' = t := Option.some.inj hdb
      rfl
    | withDbAnchored t' a ok h =>
      rw [withDbAnchored_db] at hdb
      obtain rfl : t' = t := Option.some.inj hdb
      rw [withDbAnchored_entries]
  exact ⟨hload, hdb, seq_lt_nextSeq hload⟩

theorem withDb_of_tracks {base : Option String} {hist : List AuditEntry}
    (h : Tracks P base hist log) (hload : load P t = hist) :
    (withDb P t).tip = log.tip ∧ verifyIntegrity P (withDb P t) = .ok () := by
  have hbase : (recoveredAnchor (load P t)).getD genesis = base.getD genesis := by
    rw [hload]
    rcases recoveredAnchor_getD h.chain with hnil | hr
    · rw [hnil, h.start hnil]
      rfl
    · exact hr
  have hchain : IsChain P ((recoveredAnchor (load P t)).getD genesis) (load P t) := by
    rw [hbase, hload]
    exact h.chain
  refine ⟨?_, verifyIntegrity_eq_ok.mpr ⟨hchain, fun a ha => by cases ha⟩⟩
  rw [(tracks_withDb hchain).tip, hbase, hload, h.tip]

/-- The log `with_db` builds from the table has these entries and this tip, and verifies. -/
structure Faithful (P : Platform) (t : Table) (entries : List AuditEntry) (tip : String) :
    Prop where
  entries : (withDb P t).entries = entries
  tip : (withDb P t).tip = tip
  verify : verifyIntegrity P (withDb P t) = .ok ()

theorem entries_of_le_cap (h : Backed log t)
    (calls : List (Event × ℤ × Bool)) (hle : log.entries.length + calls.length ≤ maxAuditEntries) :
    (Runs.after (step P) log (calls.map recordCall)).entries =
      log.entries ++ recordedAlong P log (calls.map recordCall) := by
  induction calls generalizing log t with
  | nil => simp [recordedAlong]
  | cons c calls ih =>
    obtain ⟨t₁, h₁, hr, -⟩ := step_backed (P := P) h c
    obtain ⟨t', hp, -⟩ := persist_of_backed (P := P) h c.1 c.2.1
    have hentries : (step P log (recordCall c)).entries =
        log.entries ++ [log.newEntry P c.1 c.2.1] := by
      have hs : (recordWithContext P c.1 c.2.1 ⟨true, c.2.2⟩ log).2 = _ :=
        recordWithContext_of_some hp
      rw [recordCall, step, hs, capDrain_entries]
      · rfl
      · simp only [AuditLog.pushed, List.length_append, List.length_cons, List.length_nil] at hle ⊢
        omega
    rw [List.map_cons, Runs.after_cons, recordedAlong, hr, ih h₁, hentries]
    · simp
    · rw [hentries]
      simp only [List.length_append, List.length_cons, List.length_nil] at hle ⊢
      omega

/-- **Reloading after a run of records** gives back the entries loaded at the start followed by
what was recorded, the tip and a verified chain exactly when every recorded action decodes; up to
the in-memory cap these are the entries of the log. -/
theorem reload_faithful_iff (P : Platform) (h : Opened P log)
    (hdb : log.db = some t) (calls : List (Event × ℤ × Bool))
    (hu : ∀ c ∈ calls, UserReads P c.1.userId) :
    ∃ t', (Runs.after (step P) log (calls.map recordCall)).db = some t' ∧
      (recordedAlong P log (calls.map recordCall)).length = calls.length ∧
      (log.entries.length + calls.length ≤ maxAuditEntries →
        (Runs.after (step P) log (calls.map recordCall)).entries =
          log.entries ++ recordedAlong P log (calls.map recordCall)) ∧
      (Faithful P t' (log.entries ++ recordedAlong P log (calls.map recordCall))
          (Runs.after (step P) log (calls.map recordCall)).tip ↔
        ∀ c ∈ calls, c.1.action.decodable = true) := by
  obtain ⟨hload, hback⟩ := h.backed hdb
  obtain ⟨t', hback', hrows, hall⟩ := run_backed (P := P) hback calls
  have htracks := tracks_run h.tracks (calls.map recordCall)
  have hlen : (recordedAlong P log (calls.map recordCall)).length = calls.length := by
    simpa using congrArg List.length hall
  refine ⟨t', hback'.1, hlen, entries_of_le_cap hback calls, ?_⟩
  generalize recordedAlong P log (calls.map recordCall) = rs at hrows hall htracks ⊢
  have hreads : ∀ e ∈ rs, UserReads P e.userId := by
    have : ∀ x ∈ rs.map (fun e => (e.action, e.userId)), UserReads P x.2 := by
      rw [hall]
      exact List.forall_mem_map.mpr hu
    exact fun e he => this _ (List.mem_map_of_mem he)
  have hactions : (∀ e ∈ rs, e.action.decodable = true) ↔
      ∀ c ∈ calls, c.1.action.decodable = true := by
    have : (∀ x ∈ rs.map (fun e => (e.action, e.userId)), x.1.decodable = true) ↔
        ∀ x ∈ calls.map (fun c => (c.1.action, c.1.userId)), x.1.decodable = true := by rw [hall]
    rwa [List.forall_mem_map, List.forall_mem_map] at this
  have hsame : load P t' = log.entries ++ rs ↔ ∀ c ∈ calls, c.1.action.decodable = true := by
    rw [load_append hrows, hload, List.append_cancel_left_eq, filterMap_decode_encode hreads,
      hactions]
  constructor
  · exact fun hf => hsame.mp hf.entries
  · intro hd
    obtain ⟨htip, hverify⟩ := withDb_of_tracks htracks (hsame.mpr hd)
    exact ⟨hsame.mpr hd, htip, hverify⟩

/-- The sample call by the sample user, with its clock and a successful anchor write. -/
def sampleCall : Event × ℤ × Bool :=
  (⟨"agent-1", .ToolInvoke, "ls", "ok", some sampleUser, some "cli"⟩, 1704067200000000000, true)

theorem opened_sample : Opened samplePlatform (withDb samplePlatform Table.empty) :=
  .withDb Table.empty (by decide)

theorem reload_faithful_iff_sample :
    ∃ t', (Runs.after (step samplePlatform) (withDb samplePlatform Table.empty)
        [recordCall sampleCall]).db = some t' ∧
      Faithful samplePlatform t'
        (recordedAlong samplePlatform (withDb samplePlatform Table.empty) [recordCall sampleCall])
        (Runs.after (step samplePlatform) (withDb samplePlatform Table.empty)
          [recordCall sampleCall]).tip := by
  obtain ⟨t', hdb, -, -, hf⟩ := reload_faithful_iff samplePlatform opened_sample rfl [sampleCall]
    (by simp only [UserReads]; decide)
  exact ⟨t', hdb, hf.mpr (by decide)⟩

/-- A discovery of an A2A agent card. -/
def sampleDiscovery : Event × ℤ × Bool :=
  (⟨"agent-1", .A2aDiscovered, "card", "ok", none, none⟩, 1704067200000000000, true)

/-- A recorded discovery reloads as a tool invocation. -/
theorem discovery_not_faithful :
    ¬∀ (P : Platform) (log : AuditLog) (t : Table), Opened P log → log.db = some t →
      ∀ calls : List (Event × ℤ × Bool), (∀ c ∈ calls, UserReads P c.1.userId) →
        ∀ t', (Runs.after (step P) log (calls.map recordCall)).db = some t' →
          Faithful P t' (log.entries ++ recordedAlong P log (calls.map recordCall))
            (Runs.after (step P) log (calls.map recordCall)).tip := by
  intro h
  obtain ⟨t', hdb, -⟩ := run_backed (P := samplePlatform) (opened_sample.backed rfl).2
    [sampleDiscovery]
  have hf := h samplePlatform _ Table.empty opened_sample rfl [sampleDiscovery]
    (by simp only [UserReads]; decide) t' hdb.1
  have hactions := congrArg (List.map AuditEntry.action) hf.entries
  have hload : ((Runs.after (step samplePlatform) (withDb samplePlatform Table.empty)
      [recordCall sampleDiscovery]).db.map (load samplePlatform)).map (List.map AuditEntry.action) =
      some [.ToolInvoke] := by decide
  have hrec : (recordedAlong samplePlatform (withDb samplePlatform Table.empty)
      [recordCall sampleDiscovery]).map AuditEntry.action = [.A2aDiscovered] := by decide
  rw [show List.map recordCall [sampleDiscovery] = [recordCall sampleDiscovery] from rfl] at hdb hactions
  rw [hdb.1, Option.map_some, Option.map_some, Option.some.injEq] at hload
  rw [show (withDb samplePlatform Table.empty).entries = [] from rfl, List.nil_append, hrec] at hactions
  rw [show (withDb samplePlatform t').entries = load samplePlatform t' from rfl, hload] at hactions
  cases hactions

end LibreFang.Audit
