import LibreFang.Lib.Lines
import LibreFang.Lib.Table
import LibreFang.Lib.Text

/-!
# The message journal and its file

* `JournalEntry`: a message with its status; `Serde`: how an entry is written on one line.
* `recover`: what a line does to the pending messages; `openFile`: `MessageJournal::open`.
* **`openFile_writeLine`**: a line appended to the file is recovered after the others.
* **`lookup_openFile_snapshotFile`**: a file that is a snapshot of pending messages gives them back.
-/

namespace LibreFang.Journal

open Lines Text

/-! ## Entries -/

/-- `JournalStatus`. -/
inductive JournalStatus
  | pending
  | processing
  | completed
  | failed
  deriving DecidableEq, Repr

/-- `JournalEntry`; the payload is what the journal stores with a message and never reads. -/
structure JournalEntry (P : Type) where
  messageId : String
  status : JournalStatus
  attempts : UInt32
  lastError : Option String
  updatedAt : ℤ
  payload : P
  deriving DecidableEq

/-- `serde_json` on entries: an entry is written as a JSON object on one line, with the control
characters of its strings escaped, and read back as it was. -/
structure Serde (P : Type) where
  write : JournalEntry P → String
  read : String → Option (JournalEntry P)
  read_write : ∀ entry, read (write entry) = some entry
  newline_notMem : ∀ entry, '\n' ∉ (write entry).toList
  braces : ∀ entry, ∃ fields, (write entry).toList = '{' :: (fields ++ ['}'])

variable {P : Type}

/-- The message has to be processed again after a crash. -/
def JournalEntry.recoverable (entry : JournalEntry P) : Bool :=
  match entry.status with
  | .completed => false
  | .failed => entry.attempts < 3
  | _ => true

/-- The pending messages by their ids. -/
abbrev Pending (P : Type) := Table String (JournalEntry P)

/-- What `open` does with an entry that it reads. -/
def recover (pending : Pending P) (entry : JournalEntry P) : Pending P :=
  match entry.status with
  | .completed => pending.erase entry.messageId
  | .failed =>
    if entry.attempts < 3 then pending.insert entry.messageId entry
    else pending.erase entry.messageId
  | _ => pending.insert entry.messageId entry

/-- What `open` does with a line; a line that is blank or malformed is skipped. -/
def recoverLine (serde : Serde P) (pending : Pending P) (line : List UInt8) : Pending P :=
  match fromUtf8? line with
  | none => pending
  | some line =>
    if trim line.toList = [] then pending
    else
      match serde.read line with
      | some entry => recover pending entry
      | none => pending

/-- `MessageJournal::open`: the messages that are pending after the lines of the file. -/
def openFile (serde : Serde P) (file : List UInt8) : Pending P :=
  (lines file).foldl (recoverLine serde) ∅

/-- The line of an entry, without its end. -/
def lineOf (serde : Serde P) (entry : JournalEntry P) : List UInt8 := utf8 (serde.write entry)

/-- `write_line_to_path`. -/
def writeLine (serde : Serde P) (file : List UInt8) (entry : JournalEntry P) : List UInt8 :=
  file ++ (lineOf serde entry ++ [newline])

/-- The temporary file of a compaction. -/
def snapshotFile (serde : Serde P) (snapshot : Pending P) : List UInt8 :=
  unlines ((snapshot.entries.map Sigma.snd).map (lineOf serde))

/-! ## Lines of entries -/

theorem plain_lineOf (serde : Serde P) (entry : JournalEntry P) : Plain (lineOf serde entry) := by
  constructor
  · intro hmem
    obtain ⟨c, hc, hcode⟩ := exists_mem_of_mem_utf8 hmem (by decide)
    obtain rfl : c = '\n' := Char.toNat_inj.mp hcode.symm
    exact serde.newline_notMem entry hc
  · obtain ⟨fields, hfields⟩ := serde.braces entry
    have hlast : lineOf serde entry = ('{' :: fields).flatMap String.utf8EncodeChar ++ [125] := by
      unfold lineOf utf8
      rw [hfields, ← List.cons_append, List.flatMap_append]
      rfl
    rw [hlast, List.getLast?_concat]
    decide

theorem recoverLine_lineOf (serde : Serde P) (pending : Pending P) (entry : JournalEntry P) :
    recoverLine serde pending (lineOf serde entry) = recover pending entry := by
  obtain ⟨fields, hfields⟩ := serde.braces entry
  have htrim : trim (serde.write entry).toList = (serde.write entry).toList := by
    refine trim_eq_self ?_ ?_
    · rw [hfields]
      rintro c ⟨⟩
      decide
    · rw [hfields, ← List.cons_append, List.getLast?_concat]
      rintro c ⟨⟩
      decide
  unfold recoverLine lineOf
  rw [fromUtf8?_eq_some.mpr rfl]
  dsimp only
  rw [htrim, hfields, if_neg (List.cons_ne_nil _ _), serde.read_write]

/-- **A line appended to a file** is recovered after the others. -/
theorem openFile_writeLine (serde : Serde P) {file : List UInt8} (h : Terminated file)
    (entry : JournalEntry P) :
    openFile serde (writeLine serde file entry) = recover (openFile serde file) entry := by
  unfold openFile writeLine
  rw [lines_append h, lines_line (plain_lineOf serde entry), List.foldl_append]
  exact recoverLine_lineOf serde _ entry

theorem terminated_writeLine (serde : Serde P) {file : List UInt8} (h : Terminated file)
    (entry : JournalEntry P) : Terminated (writeLine serde file entry) :=
  h.append (terminated_append_newline _)

/-! ## Pending messages -/

theorem recover_eq (pending : Pending P) (entry : JournalEntry P) :
    recover pending entry =
      if entry.recoverable then pending.insert entry.messageId entry
      else pending.erase entry.messageId := by
  unfold recover JournalEntry.recoverable
  cases entry.status with
  | failed => by_cases h : entry.attempts < 3 <;> simp [h]
  | _ => rfl

theorem lookup_recover_self (pending : Pending P) (entry : JournalEntry P) :
    (recover pending entry).lookup entry.messageId =
      if entry.recoverable then some entry else none := by
  rw [recover_eq]
  cases entry.recoverable with
  | true => exact AList.lookup_insert _
  | false => exact AList.lookup_erase _ _

theorem lookup_recover_ne (pending : Pending P) {entry : JournalEntry P} {id : String}
    (h : id ≠ entry.messageId) : (recover pending entry).lookup id = pending.lookup id := by
  rw [recover_eq]
  cases entry.recoverable with
  | true => exact AList.lookup_insert_ne h
  | false => exact AList.lookup_erase_ne h

/-- An entry that may stand among the pending messages under an id. -/
def Filed (id : String) (entry : JournalEntry P) : Prop :=
  entry.messageId = id ∧ entry.recoverable = true

theorem forall_filed_recover {pending : Pending P} (h : pending.Forall Filed)
    (entry : JournalEntry P) : (recover pending entry).Forall Filed := by
  rw [recover_eq]
  cases hrec : entry.recoverable with
  | true => exact h.insert ⟨rfl, hrec⟩
  | false => exact h.erase _

theorem forall_filed_openFile (serde : Serde P) (file : List UInt8) :
    (openFile serde file).Forall Filed := by
  unfold openFile
  suffices hfold : ∀ (ls : List (List UInt8)) (pending : Pending P), pending.Forall Filed →
      (ls.foldl (recoverLine serde) pending).Forall Filed from
    hfold _ _ fun id entry hfound => nomatch hfound
  intro ls
  induction ls with
  | nil => exact fun pending h => h
  | cons line ls ih =>
    intro pending h
    refine ih _ ?_
    unfold recoverLine
    split
    · exact h
    · split
      · exact h
      · split
        · exact forall_filed_recover h _
        · exact h

/-! ## Snapshots -/

theorem lookup_foldl_recover {l : List (Table.Entry String (JournalEntry P))}
    (hkeys : l.NodupKeys) (h : ∀ e ∈ l, Filed e.1 e.2) (pending : Pending P) (id : String) :
    ((l.map Sigma.snd).foldl recover pending).lookup id = (l.dlookup id).or (pending.lookup id) := by
  induction l generalizing pending with
  | nil => rfl
  | cons e l ih =>
    rw [List.forall_mem_cons] at h
    obtain ⟨hnotMem, hrest⟩ := List.nodupKeys_cons.mp hkeys
    rw [List.map_cons, List.foldl_cons, ih hrest h.2]
    obtain ⟨key, entry⟩ := e
    obtain ⟨⟨hid, hrec⟩, -⟩ := h
    dsimp only at hid hrec hnotMem ⊢
    by_cases heq : id = key
    · subst heq
      rw [List.dlookup_eq_none.mpr hnotMem, Option.none_or, List.dlookup_cons_eq, ← hid,
        lookup_recover_self, if_pos hrec]
      rfl
    · rw [List.dlookup_cons_ne _ _ heq, lookup_recover_ne _ (by rwa [hid])]

theorem foldl_recoverLine (serde : Serde P) (entries : List (JournalEntry P))
    (pending : Pending P) :
    (entries.map (lineOf serde)).foldl (recoverLine serde) pending =
      entries.foldl recover pending := by
  induction entries generalizing pending with
  | nil => rfl
  | cons entry entries ih =>
    rw [List.map_cons, List.foldl_cons, List.foldl_cons, recoverLine_lineOf, ih]

/-- **A file that is a snapshot of pending messages gives them back.** -/
theorem lookup_openFile_snapshotFile (serde : Serde P) {snapshot : Pending P}
    (h : snapshot.Forall Filed) (id : String) :
    (openFile serde (snapshotFile serde snapshot)).lookup id = snapshot.lookup id := by
  have hlines : ∀ line ∈ (snapshot.entries.map Sigma.snd).map (lineOf serde), Plain line := by
    intro line hline
    obtain ⟨entry, -, rfl⟩ := List.mem_map.mp hline
    exact plain_lineOf serde entry
  unfold openFile snapshotFile
  rw [lines_unlines hlines, foldl_recoverLine, lookup_foldl_recover snapshot.nodupKeys]
  · rw [AList.lookup_empty, Option.or_none]
    rfl
  · intro e he
    exact h e.1 e.2 (AList.mem_lookup_iff.mpr he)

end LibreFang.Journal
