import LibreFang.Audit.Entry

/-!
# The audit log

`AuditLog` with its database table and its anchor file, and the operations on it.

* `Table`: the `audit_entries` table in key order; `encodeRow`, `decodeRow`.
* `formatAnchorLine`, `readAnchor`: the anchor file.
* `new`, `withDb`, `withDbAnchored`: the constructors.
* `recordWithContext`, `verifyIntegrity`, `trim`, `prune`: the operations, with the outcome of
  their I/O as an argument.
-/

namespace LibreFang.Audit

open Text

/-- `MAX_AUDIT_ENTRIES`. -/
def maxAuditEntries : ℕ := 10000

/-! ## The table -/

/-- A row of `audit_entries`. -/
structure Row where
  seq : ℤ
  timestamp : String
  agentId : String
  action : String
  detail : String
  outcome : String
  userId : Option String
  channel : Option String
  prevHash : String
  hash : String
  deriving DecidableEq, Repr

/-- Insert a row at its place in key order; `none` when the key is taken. -/
def insertRow (r : Row) : List Row → Option (List Row)
  | [] => some [r]
  | x :: xs =>
    if r.seq < x.seq then some (r :: x :: xs)
    else if r.seq = x.seq then none
    else (insertRow r xs).map (x :: ·)

theorem mem_of_insertRow {r : Row} {xs ys : List Row} (h : insertRow r xs = some ys) :
    ∀ y ∈ ys, y = r ∨ y ∈ xs := by
  induction xs generalizing ys with
  | nil =>
    obtain rfl : [r] = ys := by simpa [insertRow] using h
    simp
  | cons x xs ih =>
    rw [insertRow] at h
    split_ifs at h
    · obtain rfl := Option.some.inj h
      intro y hy
      exact List.mem_cons.mp hy
    · obtain ⟨zs, hzs, rfl⟩ := Option.map_eq_some_iff.mp h
      intro y hy
      rcases List.mem_cons.mp hy with rfl | hy
      · exact Or.inr List.mem_cons_self
      · exact (ih hzs y hy).imp_right (List.mem_cons_of_mem _)

theorem sorted_insertRow {r : Row} {xs ys : List Row} (h : insertRow r xs = some ys)
    (hs : xs.Pairwise fun a b => a.seq < b.seq) : ys.Pairwise fun a b => a.seq < b.seq := by
  induction xs generalizing ys with
  | nil =>
    obtain rfl : [r] = ys := by simpa [insertRow] using h
    exact List.pairwise_singleton _ _
  | cons x xs ih =>
    obtain ⟨hx, hxs⟩ := List.pairwise_cons.mp hs
    rw [insertRow] at h
    split_ifs at h with hlt heq
    · obtain rfl := Option.some.inj h
      refine List.pairwise_cons.mpr ⟨fun y hy => ?_, hs⟩
      rcases List.mem_cons.mp hy with rfl | hy
      · exact hlt
      · exact hlt.trans (hx y hy)
    · obtain ⟨zs, hzs, rfl⟩ := Option.map_eq_some_iff.mp h
      refine List.pairwise_cons.mpr ⟨fun y hy => ?_, ih hzs hxs⟩
      rcases mem_of_insertRow hzs y hy with rfl | hy
      · omega
      · exact hx y hy

theorem insertRow_of_lt {r : Row} {xs : List Row} (h : ∀ x ∈ xs, x.seq < r.seq) :
    insertRow r xs = some (xs ++ [r]) := by
  induction xs with
  | nil => rfl
  | cons x xs ih =>
    have hx := h x List.mem_cons_self
    rw [insertRow, if_neg (by omega), if_neg (by omega),
      ih fun y hy => h y (List.mem_cons_of_mem _ hy)]
    rfl

/-- The rows of `audit_entries`, in key order. -/
structure Table where
  rows : List Row
  sorted : rows.Pairwise fun a b => a.seq < b.seq
  deriving DecidableEq, Repr

/-- A table without rows. -/
def Table.empty : Table := ⟨[], List.Pairwise.nil⟩

/-- `INSERT INTO audit_entries`; `none` when it fails on the primary key. -/
def Table.insert (t : Table) (r : Row) : Option Table :=
  match h : insertRow r t.rows with
  | some rows => some ⟨rows, sorted_insertRow h t.sorted⟩
  | none => none

/-- `DELETE FROM audit_entries WHERE seq < ?1`. -/
def Table.deleteBelow (t : Table) (seq : ℤ) : Table :=
  ⟨t.rows.filter fun r => decide (seq ≤ r.seq), t.sorted.filter _⟩

/-- The parameters of the INSERT. -/
def encodeRow (P : Platform) (e : AuditEntry) : Row where
  seq := e.seq
  timestamp := e.timestamp
  agentId := e.agentId
  action := e.action.display
  detail := e.detail
  outcome := e.outcome
  userId := e.userId.map fun u => P.showUuid u.bytes
  channel := e.channel
  prevHash := e.prevHash
  hash := e.hash

/-- The row mapper of `with_db`; a row whose key is not a `u64` is skipped. -/
def decodeRow (P : Platform) (r : Row) : Option AuditEntry :=
  if r.seq < 0 then none
  else some {
    seq := r.seq.toNat
    timestamp := r.timestamp
    agentId := r.agentId
    action := AuditAction.decode r.action
    detail := r.detail
    outcome := r.outcome
    userId := (r.userId.bind P.parseUuid).map UserId.mk
    channel := r.channel
    prevHash := r.prevHash
    hash := r.hash }

/-! ## The anchor file -/

/-- What reading the anchor file finds. -/
inductive AnchorFile
  | missing
  | unreadable (e : String)
  | body (s : String)
  deriving DecidableEq, Repr

/-- A configured anchor: its path and the file there. -/
structure Anchor where
  path : String
  file : AnchorFile
  deriving DecidableEq, Repr

/-- A tip hash recovered from the anchor file. -/
structure AnchorRecord where
  seq : ℕ
  hash : String
  deriving DecidableEq, Repr

/-- `format_anchor_line`. -/
def formatAnchorLine (seq : ℕ) (hash : String) : String := toString seq ++ " " ++ hash ++ "\n"

/-- `read_anchor`. -/
def readAnchor (P : Platform) : AnchorFile → Except String (Option AnchorRecord)
  | .missing => .ok none
  | .unreadable e => .error ("cannot read audit anchor: " ++ e)
  | .body s =>
    let line := trim (firstLine s.toList)
    if line.isEmpty then .ok none
    else
      match splitWhitespaceOnce line with
      | (_, none) => .error "anchor file has no hash column"
      | (seqStr, some rest) =>
        let hash := String.ofList (trim rest)
        match parseU64 seqStr with
        | .error e => .error ("anchor seq is not a u64: " ++ e)
        | .ok seq =>
          if (utf8 hash).length ≠ 64 ∨ hash.toList.all isAsciiHexdigit = false then
            .error ("anchor hash is not 64 hex chars: " ++ P.debug hash)
          else .ok (some ⟨seq, hash⟩)

/-- `len() as u64`. -/
def asU64 (n : ℕ) : ℕ := n % 2 ^ 64

/-! ## The log -/

/-- The audit log, with the table behind its connection and the file at its anchor path. -/
structure AuditLog where
  entries : List AuditEntry
  tip : String
  db : Option Table
  anchor : Option Anchor
  chainAnchor : Option String
  deriving DecidableEq, Repr

/-- `AuditLog::new`. -/
def new : AuditLog := ⟨[], genesis, none, none, none⟩

/-- The entries `with_db` loads. -/
def load (P : Platform) (t : Table) : List AuditEntry := t.rows.filterMap (decodeRow P)

/-- The chain anchor `with_db` recovers from the first loaded entry. -/
def recoveredAnchor (entries : List AuditEntry) : Option String :=
  match entries.head? with
  | some first => if first.prevHash ≠ genesis then some first.prevHash else none
  | none => none

/-- `AuditLog::with_db`. -/
def withDb (P : Platform) (t : Table) : AuditLog where
  entries := load P t
  tip := ((load P t).getLast?.map AuditEntry.hash).getD genesis
  db := some t
  anchor := none
  chainAnchor := recoveredAnchor (load P t)

/-- Rewrite the anchor file with the number of entries and the tip; a failed write leaves it. -/
def AuditLog.writeAnchor (log : AuditLog) (anchorOk : Bool) : AuditLog :=
  { log with
    anchor := log.anchor.map fun a =>
      if anchorOk then { a with file := .body (formatAnchorLine (asU64 log.entries.length) log.tip) }
      else a }

/-- `AuditLog::with_db_anchored`: a missing anchor is seeded from the current tip. -/
def withDbAnchored (P : Platform) (t : Table) (a : Anchor) (anchorOk : Bool) : AuditLog :=
  let log := { withDb P t with anchor := some a }
  match readAnchor P a.file with
  | .ok (some _) => log
  | .ok none => log.writeAnchor anchorOk
  | .error _ => log

/-! ## Recording -/

/-- The arguments of `record_with_context`. -/
structure Event where
  agentId : String
  action : AuditAction
  detail : String
  outcome : String
  userId : Option UserId
  channel : Option String
  deriving DecidableEq, Repr

/-- Outcome of the I/O of one call: the SQL statement and the anchor write. -/
structure Io where
  dbOk : Bool
  anchorOk : Bool
  deriving DecidableEq, Repr

/-- The next sequence number, from the last entry. -/
def AuditLog.nextSeq (log : AuditLog) : ℕ :=
  match log.entries.getLast? with
  | some e => e.seq + 1
  | none => 0

/-- The entry `record_with_context` builds. -/
def AuditLog.newEntry (P : Platform) (log : AuditLog) (ev : Event) (now : ℤ) : AuditEntry where
  seq := log.nextSeq
  timestamp := P.toRfc3339 now
  agentId := ev.agentId
  action := ev.action
  detail := ev.detail
  outcome := ev.outcome
  userId := ev.userId
  channel := ev.channel
  prevHash := log.tip
  hash := computeEntryHash P log.nextSeq (P.toRfc3339 now) ev.agentId ev.action ev.detail
    ev.outcome ev.userId ev.channel log.tip

/-- The database after the INSERT; `none` when it failed. Without a database nothing can fail. -/
def persist (P : Platform) (dbOk : Bool) (e : AuditEntry) : Option Table → Option (Option Table)
  | none => some none
  | some t => if dbOk then (t.insert (encodeRow P e)).map some else none

/-- The hard cap: drain the oldest entries of an overfull buffer. -/
def AuditLog.capDrain (log : AuditLog) : AuditLog :=
  if log.entries.length > maxAuditEntries then
    let overflow := log.entries.length - maxAuditEntries
    { log with
      chainAnchor := log.entries[overflow - 1]?.map AuditEntry.hash
      entries := log.entries.drop overflow }
  else log

/-- `record_with_context`: the returned hash and the log. -/
def recordWithContext (P : Platform) (ev : Event) (now : ℤ) (io : Io) (log : AuditLog) :
    String × AuditLog :=
  let entry := log.newEntry P ev now
  match persist P io.dbOk entry log.db with
  | none => (entry.hash, log)
  | some db =>
    let pushed := { log with db := db, entries := log.entries ++ [entry], tip := entry.hash }
    (entry.hash, pushed.capDrain.writeAnchor io.anchorOk)

/-- `record`: without attribution. -/
def record (P : Platform) (agentId : String) (action : AuditAction) (detail outcome : String)
    (now : ℤ) (io : Io) (log : AuditLog) : String × AuditLog :=
  recordWithContext P ⟨agentId, action, detail, outcome, none, none⟩ now io log

/-- The walk over the chain, with the expected previous hash; the result is the last hash. -/
def verifyChain (P : Platform) : String → List AuditEntry → Except String String
  | expected, [] => .ok expected
  | expected, e :: es =>
    if e.prevHash ≠ expected then
      .error ("chain break at seq " ++ toString e.seq ++ ": expected prev_hash " ++ expected ++
        " but found " ++ e.prevHash)
    else if e.recomputed P ≠ e.hash then
      .error ("hash mismatch at seq " ++ toString e.seq ++ ": expected " ++ e.recomputed P ++
        " but found " ++ e.hash)
    else verifyChain P e.hash es

/-- The external anchor check. -/
def verifyAnchor (P : Platform) (a : Anchor) (len : ℕ) (tip : String) : Except String Unit :=
  match readAnchor P a.file with
  | .ok (some record) =>
    if record.seq ≠ len ∨ record.hash ≠ tip then
      .error ("audit anchor mismatch: anchor says seq=" ++ toString record.seq ++ " tip=" ++
        record.hash ++ " but DB has len=" ++ toString len ++ " tip=" ++ tip)
    else .ok ()
  | .ok none => .error ("audit anchor file " ++ P.debug a.path ++
      " is missing — cannot verify tip integrity against external witness")
  | .error e => .error ("audit anchor unreadable: " ++ e)

/-- `verify_integrity`. -/
def verifyIntegrity (P : Platform) (log : AuditLog) : Except String Unit :=
  match verifyChain P (log.chainAnchor.getD genesis) log.entries with
  | .error e => .error e
  | .ok tip =>
    match log.anchor with
    | some a => verifyAnchor P a (asU64 log.entries.length) tip
    | none => .ok ()

/-! ## Retention -/

/-- `AuditRetentionConfig`, as far as `trim` reads it. -/
structure AuditRetentionConfig where
  retentionDaysByAction : String → Option ℕ
  maxInMemoryEntries : Option ℕ

/-- `TrimReport`; the counts are in key order. -/
structure TrimReport where
  droppedByAction : List (String × ℕ)
  totalDropped : ℕ
  newChainAnchor : Option String
  deriving DecidableEq, Repr

/-- `TrimReport::default`. -/
def TrimReport.default : TrimReport := ⟨[], 0, none⟩

/-- Count one more drop of an action. -/
def tally (action : String) : List (String × ℕ) → List (String × ℕ)
  | [] => [(action, 1)]
  | (a, n) :: rest =>
    if action < a then (action, 1) :: (a, n) :: rest
    else if action = a then (a, n + 1) :: rest
    else (a, n) :: tally action rest

/-- `now - Duration::days(days)`; the subtraction panics below the least representable date. -/
def subDays (P : Platform) (now : ℤ) (days : ℕ) : Option ℤ :=
  let cutoff := now - days * 86400000000000
  if cutoff < P.minUtc then none else some cutoff

/-- Pass 2 of `trim`, from the current index on: how many more entries to drop. -/
def trimScan (P : Platform) (policy : AuditRetentionConfig) (now : ℤ) :
    List AuditEntry → Option ℕ
  | [] => some 0
  | e :: es =>
    match policy.retentionDaysByAction e.action.display with
    | none => some 0
    | some 0 => some 0
    | some days@(_ + 1) =>
      match subDays P now days with
      | none => none
      | some cutoff =>
        match P.parseRfc3339 e.timestamp with
        | none => some 0
        | some ts => if ts < cutoff then (trimScan P policy now es).map (· + 1) else some 0

/-- The first sequence number that survives a drop of `k` entries. -/
def AuditLog.firstSurvivorSeq (log : AuditLog) (k : ℕ) : ℕ :=
  match log.entries[k]? with
  | some e => e.seq
  | none => log.nextSeq

/-- The common end of `trim` and `prune`: drop the first `k` entries here and in the table. -/
def AuditLog.dropPrefix (log : AuditLog) (k : ℕ) (io : Io) : AuditLog :=
  { log with
    db := log.db.map fun t => if io.dbOk then t.deleteBelow (log.firstSurvivorSeq k) else t
    chainAnchor := log.entries[k - 1]?.map AuditEntry.hash
    entries := log.entries.drop k : AuditLog }.writeAnchor io.anchorOk

/-- How many entries `trim` drops; `none` when it panics. -/
def trimCount (P : Platform) (policy : AuditRetentionConfig) (now : ℤ)
    (entries : List AuditEntry) : Option ℕ :=
  let total := entries.length
  let cap := policy.maxInMemoryEntries.getD 0
  let capped := if cap > 0 ∧ total > cap then total - cap else 0
  (trimScan P policy now (entries.drop capped)).map (capped + ·)

/-- The report of a trim that drops `k` entries. -/
def trimReport (entries : List AuditEntry) (k : ℕ) : TrimReport where
  droppedByAction := (entries.take k).foldl (fun acc e => tally e.action.display acc) []
  totalDropped := k
  newChainAnchor := entries[k - 1]?.map AuditEntry.hash

/-- `trim`: the report, none when the date subtraction panics, and the log. -/
def trim (P : Platform) (policy : AuditRetentionConfig) (now : ℤ) (io : Io) (log : AuditLog) :
    Option TrimReport × AuditLog :=
  match trimCount P policy now log.entries with
  | none => (none, log)
  | some 0 => (some TrimReport.default, log)
  | some k@(_ + 1) => (some (trimReport log.entries k), log.dropPrefix k io)

/-- How many entries `prune` drops before the cutoff. -/
def pruneCount (cutoff : String) (entries : List AuditEntry) : ℕ :=
  (entries.takeWhile fun e => decide (e.timestamp < cutoff)).length

/-- `prune`: the number of entries removed, none when the date subtraction panics, and the log. -/
def prune (P : Platform) (retentionDays : ℕ) (now : ℤ) (io : Io) (log : AuditLog) :
    Option ℕ × AuditLog :=
  if retentionDays = 0 then (some 0, log)
  else
    match subDays P now retentionDays with
    | none => (none, log)
    | some cutoff =>
      match pruneCount (P.toRfc3339 cutoff) log.entries with
      | 0 => (some 0, log)
      | k@(_ + 1) => (some k, log.dropPrefix k io)

/-- One call on the log, with its clock and the outcome of its I/O. -/
inductive Op
  | record (ev : Event) (now : ℤ) (io : Io)
  | trim (policy : AuditRetentionConfig) (now : ℤ) (io : Io)
  | prune (retentionDays : ℕ) (now : ℤ) (io : Io)

/-- The outcome of the I/O of a call. -/
def Op.io : Op → Io
  | .record _ _ io => io
  | .trim _ _ io => io
  | .prune _ _ io => io

/-- The log after a call. -/
def step (P : Platform) (log : AuditLog) : Op → AuditLog
  | .record ev now io => (recordWithContext P ev now io log).2
  | .trim policy now io => (Audit.trim P policy now io log).2
  | .prune days now io => (Audit.prune P days now io log).2

/-- The entry a call records: one whose INSERT succeeds. -/
def recorded (P : Platform) (log : AuditLog) : Op → Option AuditEntry
  | .record ev now io =>
    (persist P io.dbOk (log.newEntry P ev now) log.db).map fun _ => log.newEntry P ev now
  | _ => none

/-- The entries a run records, in order. -/
def recordedAlong (P : Platform) : AuditLog → List Op → List AuditEntry
  | _, [] => []
  | log, op :: ops => (recorded P log op).toList ++ recordedAlong P (step P log op) ops

end LibreFang.Audit
