import LibreFang.Journal.Compact

/-!
# The journal after torn writes

The process that has opened the journal appends lines, and may crash in the middle of one.

* `Machine`, `Happening`, `Machine.step`: the file and the process, with the writes so far.
* `Recovered`: `open` recovers every completed write, and perhaps some that were torn.
* `Serde.PrefixFree`: no entry is read from a part of a line.
* **`recovered_of_whole`**: along `Whole`, all that was completed is recovered.
-/

namespace LibreFang.Journal

open Lines Runs Text

variable {P : Type}

/-! ## The machine -/

/-- A call that appends a line. -/
inductive Append (P : Type)
  | record (entry : JournalEntry P)
  | updateStatus (messageId : String) (status : JournalStatus) (error : Option String) (now : ℤ)

/-- The entry whose line is appended. -/
def Append.entry (pending : Pending P) : Append P → Option (JournalEntry P)
  | .record entry => some entry
  | .updateStatus messageId status error now =>
    (pending.lookup messageId).map fun entry => entry.update status error now

/-- The call, to its end. -/
def Append.run (serde : Serde P) (s : System P) : Append P → System P
  | .record entry => Journal.record serde s entry
  | .updateStatus messageId status error now => Journal.updateStatus serde s messageId status error now

/-- The bytes that the call appends. -/
def Append.bytes (serde : Serde P) (pending : Pending P) (call : Append P) : List UInt8 :=
  match call.entry pending with
  | some entry => lineOf serde entry ++ [newline]
  | none => []

/-- A write of an entry: to its end, or torn by a crash. -/
inductive Write (P : Type)
  | completed (entry : JournalEntry P)
  | torn (entry : JournalEntry P)

/-- The journal file, the pending messages of the process that has opened it, if there is one, and,
for the statements only, the writes so far. -/
structure Machine (P : Type) where
  file : List UInt8
  process : Option (Pending P)
  writes : List (Write P)

/-- What can happen: the journal is opened, a call runs to its end, or the process crashes in a
call, of whose bytes the first `k` have reached the file. -/
inductive Happening (P : Type)
  | reopen
  | append (call : Append P)
  | crash (call : Append P) (k : ℕ)

/-- The machine after it. -/
def Machine.step (serde : Serde P) (m : Machine P) : Happening P → Machine P
  | .reopen => { m with process := some (openFile serde m.file) }
  | .append call =>
    match m.process with
    | none => m
    | some pending =>
      let s := call.run serde ⟨m.file, pending, none, []⟩
      ⟨s.file, some s.pending, m.writes ++ ((call.entry pending).map .completed).toList⟩
  | .crash call k =>
    match m.process with
    | none => m
    | some pending =>
      ⟨m.file ++ (call.bytes serde pending).take k, none,
        m.writes ++ ((call.entry pending).map .torn).toList⟩

/-- No file yet. -/
def Machine.new : Machine P := ⟨[], none, []⟩

/-- The entries of all completed writes, and of some that were torn, in their order. -/
inductive Kept : List (Write P) → List (JournalEntry P) → Prop
  | nil : Kept [] []
  | completed {writes : List (Write P)} {entries : List (JournalEntry P)} (entry : JournalEntry P)
      (h : Kept writes entries) : Kept (.completed entry :: writes) (entry :: entries)
  | lost {writes : List (Write P)} {entries : List (JournalEntry P)} (entry : JournalEntry P)
      (h : Kept writes entries) : Kept (.torn entry :: writes) entries
  | landed {writes : List (Write P)} {entries : List (JournalEntry P)} (entry : JournalEntry P)
      (h : Kept writes entries) : Kept (.torn entry :: writes) (entry :: entries)

/-- `open` recovers every completed write, and perhaps some that were torn. -/
def Recovered (serde : Serde P) (m : Machine P) : Prop :=
  ∃ entries, Kept m.writes entries ∧ openFile serde m.file = entries.foldl recover ∅

/-- No entry is read from a part of a line: a JSON object is not complete before its last brace. -/
def Serde.PrefixFree (serde : Serde P) : Prop :=
  ∀ entry bytes text, bytes <+: lineOf serde entry → bytes ≠ lineOf serde entry →
    fromUtf8? bytes = some text → serde.read text = none

/-- Nothing is written behind a line without its end. -/
def Whole (m : Machine P) : Happening P → Prop
  | .reopen => True
  | .append call =>
    ∀ pending, m.process = some pending → call.entry pending ≠ none → Terminated m.file
  | .crash call k =>
    ∀ pending, m.process = some pending → call.entry pending ≠ none → 0 < k → Terminated m.file

theorem Kept.append {writes writes' : List (Write P)} {entries entries' : List (JournalEntry P)}
    (h : Kept writes entries) (h' : Kept writes' entries') :
    Kept (writes ++ writes') (entries ++ entries') := by
  induction h with
  | nil => exact h'
  | completed entry h ih => exact .completed entry ih
  | lost entry h ih => exact .lost entry ih
  | landed entry h ih => exact .landed entry ih

/-! ## The file -/

/-- What is on the disk: whole lines, and a last line without its end, from which `extra` is
recovered. -/
structure OnDisk (serde : Serde P) (m : Machine P) (entries extra : List (JournalEntry P))
    (tail : List UInt8) : Prop where
  file : m.file = unlines (entries.map (lineOf serde)) ++ tail
  unended : newline ∉ tail
  recovers : ∀ pending, recoverLine serde pending tail = extra.foldl recover pending
  empty : tail = [] → extra = []
  kept : Kept m.writes (entries ++ extra)

variable {serde : Serde P} {m : Machine P} {entries extra : List (JournalEntry P)}
  {tail : List UInt8}

theorem OnDisk.recovered (h : OnDisk serde m entries extra tail) : Recovered serde m := by
  refine ⟨entries ++ extra, h.kept, ?_⟩
  have hplain : ∀ line ∈ entries.map (lineOf serde), Plain line := by
    intro line hline
    obtain ⟨entry, -, rfl⟩ := List.mem_map.mp hline
    exact plain_lineOf serde entry
  rw [openFile, h.file, lines_append (terminated_unlines _), lines_unlines hplain,
    List.foldl_append, foldl_recoverLine, List.foldl_append]
  by_cases htail : tail = []
  · rw [htail, h.empty htail]
    rfl
  · rw [lines_unended h.unended htail]
    exact h.recovers _

theorem OnDisk.tail_eq (h : OnDisk serde m entries extra tail) (hend : Terminated m.file) :
    tail = [] ∧ extra = [] := by
  have htail : tail = [] := eq_nil_of_terminated (h.file ▸ hend) h.unended
  exact ⟨htail, h.empty htail⟩

theorem OnDisk.lost (h : OnDisk serde m entries extra tail) (process : Option (Pending P))
    (entry : JournalEntry P) :
    OnDisk serde ⟨m.file, process, m.writes ++ [.torn entry]⟩ entries extra tail where
  file := h.file
  unended := h.unended
  recovers := h.recovers
  empty := h.empty
  kept := by
    have hkept := h.kept.append (.lost entry .nil)
    rwa [List.append_nil] at hkept

theorem OnDisk.line (h : OnDisk serde m entries extra tail) (hend : Terminated m.file)
    (process : Option (Pending P)) {entry : JournalEntry P} {write : Write P}
    (hwrite : Kept [write] [entry]) :
    OnDisk serde ⟨m.file ++ (lineOf serde entry ++ [newline]), process, m.writes ++ [write]⟩
      (entries ++ [entry]) [] [] := by
  obtain ⟨rfl, rfl⟩ := h.tail_eq hend
  refine ⟨?_, List.not_mem_nil, fun _ => rfl, fun _ => rfl, ?_⟩
  · dsimp only
    rw [h.file, List.append_nil, List.append_nil, List.map_append, unlines, unlines,
      List.flatMap_append, List.map_singleton, List.flatMap_singleton]
  · have hkept := h.kept.append hwrite
    rwa [List.append_nil] at hkept ⊢

theorem OnDisk.part (hfree : serde.PrefixFree) (h : OnDisk serde m entries extra tail)
    (hend : Terminated m.file) (process : Option (Pending P)) (entry : JournalEntry P) {k : ℕ}
    (hk : k ≤ (lineOf serde entry).length) (hpos : 0 < k) :
    ∃ extra', OnDisk serde ⟨m.file ++ (lineOf serde entry).take k, process,
      m.writes ++ [.torn entry]⟩ entries extra' ((lineOf serde entry).take k) := by
  obtain ⟨rfl, rfl⟩ := h.tail_eq hend
  have hunended : newline ∉ (lineOf serde entry).take k := fun hmem =>
    (plain_lineOf serde entry).1 (List.mem_of_mem_take hmem)
  have hne : (lineOf serde entry).take k ≠ [] := by
    intro hnil
    have hlen := congrArg List.length hnil
    rw [List.length_take, List.length_nil] at hlen
    omega
  have hfile : m.file ++ (lineOf serde entry).take k =
      unlines (entries.map (lineOf serde)) ++ (lineOf serde entry).take k := by
    rw [h.file, List.append_nil]
  have hkept := h.kept
  rw [List.append_nil] at hkept
  by_cases hall : (lineOf serde entry).take k = lineOf serde entry
  · refine ⟨[entry], hfile, hunended, fun pending => ?_, fun hnil => absurd hnil hne,
      hkept.append (.landed entry .nil)⟩
    rw [hall, recoverLine_lineOf]
    rfl
  · refine ⟨[], hfile, hunended, fun pending => ?_, fun _ => rfl, ?_⟩
    · unfold recoverLine
      cases htext : fromUtf8? ((lineOf serde entry).take k) with
      | none => rfl
      | some text =>
        have htake := List.take_prefix k (lineOf serde entry)
        dsimp only
        rw [hfree entry _ text htake hall htext]
        split_ifs <;> rfl
    · rw [List.append_nil]
      have hlost := hkept.append (.lost entry .nil)
      rwa [List.append_nil] at hlost

/-! ## Steps and runs -/

/-- What `open` makes of the file is known. -/
def Legible (serde : Serde P) (m : Machine P) : Prop :=
  ∃ entries extra tail, OnDisk serde m entries extra tail

theorem file_run (serde : Serde P) (s : System P) (call : Append P) :
    (call.run serde s).file = s.file ++ call.bytes serde s.pending := by
  cases call with
  | record entry => rfl
  | updateStatus messageId status error now =>
    dsimp only [Append.run, Append.bytes, Append.entry, Journal.updateStatus]
    cases s.pending.lookup messageId with
    | none => exact (List.append_nil s.file).symm
    | some entry => rfl

/-- **A step that writes nothing behind a line without its end.** -/
theorem Legible.step (hfree : serde.PrefixFree) (h : Legible serde m) {e : Happening P}
    (hwhole : Whole m e) : Legible serde (m.step serde e) := by
  obtain ⟨entries, extra, tail, hdisk⟩ := h
  cases e with
  | reopen => exact ⟨entries, extra, tail, ⟨hdisk.file, hdisk.unended, hdisk.recovers,
      hdisk.empty, hdisk.kept⟩⟩
  | append call =>
    dsimp only [Machine.step]
    cases hprocess : m.process with
    | none => exact ⟨entries, extra, tail, hdisk⟩
    | some pending =>
      dsimp only
      rw [file_run]
      cases hentry : call.entry pending with
      | none =>
        refine ⟨entries, extra, tail, ?_, hdisk.unended, hdisk.recovers, hdisk.empty, ?_⟩
        · simpa only [Append.bytes, hentry, List.append_nil] using hdisk.file
        · simpa only [Option.map_none, Option.toList_none, List.append_nil] using hdisk.kept
      | some entry =>
        have hend := hwhole pending hprocess (hentry ▸ Option.some_ne_none entry)
        simp only [Append.bytes, hentry, Option.map_some, Option.toList_some]
        exact ⟨_, _, _, hdisk.line hend _ (.completed entry .nil)⟩
  | crash call k =>
    dsimp only [Machine.step]
    cases hprocess : m.process with
    | none => exact ⟨entries, extra, tail, hdisk⟩
    | some pending =>
      dsimp only
      cases hentry : call.entry pending with
      | none =>
        refine ⟨entries, extra, tail, ?_, hdisk.unended, hdisk.recovers, hdisk.empty, ?_⟩
        · simpa only [Append.bytes, hentry, List.take_nil, List.append_nil] using hdisk.file
        · simpa only [Option.map_none, Option.toList_none, List.append_nil] using hdisk.kept
      | some entry =>
        simp only [Append.bytes, hentry, Option.map_some, Option.toList_some]
        rcases Nat.eq_zero_or_pos k with rfl | hpos
        · rw [List.take_zero, List.append_nil]
          exact ⟨_, _, _, hdisk.lost _ entry⟩
        · have hend := hwhole pending hprocess (hentry ▸ Option.some_ne_none entry) hpos
          by_cases hk : k ≤ (lineOf serde entry).length
          · rw [List.take_append_of_le_length hk]
            obtain ⟨extra', hpart⟩ := hdisk.part hfree hend none entry hk hpos
            exact ⟨_, _, _, hpart⟩
          · have hlen : (lineOf serde entry ++ [newline]).length ≤ k := by
              rw [List.length_append, List.length_singleton]
              omega
            rw [List.take_of_length_le hlen]
            exact ⟨_, _, _, hdisk.line hend _ (.landed entry .nil)⟩

/-- **In every run in which nothing is written behind a line without its end, `open` recovers every
completed write.** -/
theorem recovered_of_whole (hfree : serde.PrefixFree) (events : List (Happening P))
    (hwhole : Along (Machine.step serde) Whole .new events) (front rest : List (Happening P))
    (hevents : events = front ++ rest) :
    Recovered serde (after (Machine.step serde) .new front) := by
  subst hevents
  have hfront := ((along_append (Machine.step serde)).mp hwhole).1
  have hnew : Legible serde .new :=
    ⟨[], [], [], rfl, List.not_mem_nil, fun _ => rfl, fun _ => rfl, .nil⟩
  obtain ⟨entries, extra, tail, hdisk⟩ :=
    invariant (I := Legible serde) (fun _ _ h hw => h.step hfree hw) hnew hfront
  exact hdisk.recovered

/-! ## A crash -/

/-- The serialisation that reads an entry only from the text that it writes. -/
def Serde.strict (serde : Serde P) : Serde P :=
  { serde with
    read := fun s => (serde.read s).filter fun entry => decide (serde.write entry = s)
    read_write := fun entry => by rw [serde.read_write]; exact Option.filter_some_pos (by simp) }

theorem lineOf_strict (serde : Serde P) (entry : JournalEntry P) :
    lineOf serde.strict entry = lineOf serde entry := rfl

theorem write_of_strict_read {text : String} {entry : JournalEntry P}
    (h : serde.strict.read text = some entry) : serde.write entry = text :=
  of_decide_eq_true (Option.filter_eq_some_iff.mp h).2

theorem prefixFree_strict (h : ∀ entry entry', lineOf serde entry' <+: lineOf serde entry →
    lineOf serde entry' = lineOf serde entry) : serde.strict.PrefixFree := by
  intro entry bytes text hpart hne htext
  cases hread : serde.strict.read text with
  | none => rfl
  | some entry' =>
    have hbytes : lineOf serde entry' = bytes := by
      rw [lineOf, write_of_strict_read hread]
      exact fromUtf8?_eq_some.mp htext
    rw [← hbytes] at hpart hne
    exact absurd (h entry entry' hpart) hne

/-- The digits of an entry, as bytes. -/
def JournalEntry.digitBytes (e : JournalEntry Unit) : List UInt8 :=
  e.digits.flatMap String.utf8EncodeChar

theorem notMem_digitBytes {c : Char} (hdigit : c.isDigit = false) (hlt : c.toNat < 128)
    {b : UInt8} (hb : b.toNat = c.toNat) (e : JournalEntry Unit) : b ∉ e.digitBytes := by
  intro hmem
  have hutf8 : b ∈ utf8 (String.ofList e.digits) := by
    rwa [utf8, String.toList_ofList]
  obtain ⟨c', hc', hcode⟩ := exists_mem_of_mem_utf8 hutf8 (by omega)
  obtain rfl : c' = c := Char.toNat_inj.mp (hcode.symm.trans hb)
  rw [String.toList_ofList] at hc'
  have := isDigit_of_mem_toDigits hc'
  rw [hdigit] at this
  cases this

theorem quote_notMem_digitBytes (e : JournalEntry Unit) : 34 ∉ e.digitBytes :=
  @notMem_digitBytes '"' rfl (by decide) 34 rfl e

theorem brace_notMem_digitBytes (e : JournalEntry Unit) : 125 ∉ e.digitBytes :=
  @notMem_digitBytes '\x7d' rfl (by decide) 125 rfl e

theorem open_notMem_digitBytes (e : JournalEntry Unit) : 123 ∉ e.digitBytes :=
  @notMem_digitBytes '\x7b' rfl (by decide) 123 rfl e

theorem lineOf_receivedSerde {e : JournalEntry Unit} (h : e ≠ received) :
    lineOf receivedSerde e = 123 :: (e.digitBytes ++ [125]) := by
  have hwrite : receivedSerde.write e = String.ofList ('\x7b' :: (e.digits ++ ['\x7d'])) :=
    if_neg h
  rw [lineOf, hwrite, utf8, String.toList_ofList, List.flatMap_cons, List.flatMap_append]
  rfl

theorem lineOf_received : ∃ rest, lineOf receivedSerde received = 123 :: 34 :: rest := by
  have hwrite : receivedSerde.write received = String.ofList receivedText := by
    unfold receivedSerde Serde.patch
    dsimp only
    rw [if_pos rfl]
  have hhead : receivedText.take 2 = ['\x7b', '"'] := by
    refine beq_iff_eq.mp ?_
    decide +kernel
  have htext : receivedText = ['\x7b', '"'] ++ receivedText.drop 2 := by
    rw [← hhead, List.take_append_drop]
  refine ⟨(receivedText.drop 2).flatMap String.utf8EncodeChar, ?_⟩
  rw [lineOf, hwrite, utf8, String.toList_ofList]
  nth_rewrite 1 [htext]
  rfl

theorem prefixFree_receivedSerde : receivedSerde.strict.PrefixFree := by
  refine prefixFree_strict fun e e' hpart => ?_
  obtain ⟨rest, hreceived⟩ := lineOf_received
  by_cases he : e = received
  · by_cases he' : e' = received
    · rw [he, he']
    · rw [he, hreceived, lineOf_receivedSerde he', List.cons_prefix_cons] at hpart
      have hhead : 34 ∈ e'.digitBytes ++ [125] := by
        cases hdigits : e'.digitBytes ++ [125] with
        | nil => exact absurd hdigits (List.append_ne_nil_of_right_ne_nil _ (List.cons_ne_nil _ _))
        | cons b bs =>
          rw [hdigits, List.cons_prefix_cons] at hpart
          rw [hpart.2.1]
          exact List.mem_cons_self
      rcases List.mem_append.mp hhead with hmem | hmem
      · exact absurd hmem (quote_notMem_digitBytes e')
      · exact absurd (List.mem_singleton.mp hmem) (by decide)
  · rw [lineOf_receivedSerde he] at hpart ⊢
    by_cases he' : e' = received
    · rw [he', hreceived] at hpart
      have hmem := hpart.subset (List.mem_cons_of_mem 123 List.mem_cons_self)
      rcases List.mem_cons.mp hmem with hmem | hmem
      · exact absurd hmem (by decide)
      · rcases List.mem_append.mp hmem with hmem | hmem
        · exact absurd hmem (quote_notMem_digitBytes e)
        · exact absurd (List.mem_singleton.mp hmem) (by decide)
    · rw [lineOf_receivedSerde he'] at hpart ⊢
      obtain ⟨rest', happend⟩ := hpart
      rcases List.eq_nil_or_concat' rest' with rfl | ⟨front, b, rfl⟩
      · rw [← happend, List.append_nil]
      · -- the last brace of the shorter line would stand among the digits of the longer one
        rw [List.cons_append, ← List.append_assoc] at happend
        have htail := (List.cons.inj happend).2
        have hfront := (List.append_inj' htail rfl).1
        have hmem : (125 : UInt8) ∈ e.digitBytes := by
          rw [← hfront]
          exact List.mem_append_left _ (List.mem_append_right _ (List.mem_singleton_self _))
        exact absurd hmem (brace_notMem_digitBytes e)

/-- The message is recorded, the process crashes in the middle of the next line, and the journal is
opened again. -/
def tornRun : List (Happening Unit) :=
  [.reopen, .append (.record received), .crash (.record received) 7, .reopen]

theorem recovered_of_whole_tornRun :
    Recovered receivedSerde.strict (after (Machine.step receivedSerde.strict) .new tornRun) := by
  have hend : Terminated (writeLine receivedSerde.strict [] received) :=
    terminated_writeLine _ terminated_nil _
  refine recovered_of_whole prefixFree_receivedSerde tornRun ⟨trivial, ?_, ?_, trivial, trivial⟩
    tornRun [] (List.append_nil _).symm
  · exact fun _ _ _ => terminated_nil
  · exact fun _ _ _ _ => hend

/-- The process crashes in its first line; opened again, it records the message. -/
def gluedRun : List (Happening Unit) :=
  [.reopen, .crash (.record received) 1, .reopen, .append (.record received)]

theorem read_glued : receivedSerde.strict.read ("\x7b" ++ receivedSerde.write received) = none := by
  cases hread : receivedSerde.strict.read ("\x7b" ++ receivedSerde.write received) with
  | none => rfl
  | some e =>
    obtain ⟨rest, hreceived⟩ := lineOf_received
    have hline : lineOf receivedSerde e = 123 :: 123 :: 34 :: rest := by
      rw [lineOf, write_of_strict_read hread, utf8_append, ← lineOf, hreceived]
      rfl
    by_cases he : e = received
    · rw [he, hreceived] at hline
      exact absurd (List.cons.inj (List.cons.inj hline).2).1 (by decide)
    · rw [lineOf_receivedSerde he] at hline
      have hmem : (123 : UInt8) ∈ e.digitBytes ++ [125] := by
        rw [(List.cons.inj hline).2]
        exact List.mem_cons_self
      rcases List.mem_append.mp hmem with hmem | hmem
      · exact absurd hmem (open_notMem_digitBytes e)
      · exact absurd (List.mem_singleton.mp hmem) (by decide)

theorem file_gluedRun (serde : Serde Unit) :
    (after (Machine.step serde) .new gluedRun).file =
      (lineOf serde received ++ [newline]).take 1 ++ (lineOf serde received ++ [newline]) := rfl

theorem openFile_gluedRun :
    openFile receivedSerde.strict
      (after (Machine.step receivedSerde.strict) .new gluedRun).file = ∅ := by
  obtain ⟨rest, hreceived⟩ := lineOf_received
  have hline : lineOf receivedSerde.strict received = 123 :: 34 :: rest :=
    (lineOf_strict _ _).trans hreceived
  have hplain : Plain (123 :: lineOf receivedSerde.strict received) := by
    obtain ⟨hmem, hlast⟩ := plain_lineOf receivedSerde.strict received
    refine ⟨fun h => ?_, ?_⟩
    · rcases List.mem_cons.mp h with h | h
      · exact absurd h (by decide)
      · exact hmem h
    · rw [hline] at hlast ⊢
      exact hlast
  have htext : fromUtf8? (123 :: lineOf receivedSerde.strict received) =
      some ("\x7b" ++ receivedSerde.write received) := by
    have hopen : utf8 "\x7b" = [123] := by decide
    rw [fromUtf8?_eq_some, utf8_append, hopen, lineOf_strict, lineOf]
    exact List.singleton_append
  have hglue : (lineOf receivedSerde.strict received ++ [newline]).take 1 ++
      (lineOf receivedSerde.strict received ++ [newline]) =
        (123 :: lineOf receivedSerde.strict received) ++ [newline] := by
    rw [hline]
    rfl
  rw [openFile, file_gluedRun, hglue, lines_line hplain, List.foldl_cons, List.foldl_nil, recoverLine, htext]
  dsimp only
  rw [read_glued]
  split_ifs <;> rfl

/-- **A record that was completed is lost** behind a line without its end. -/
theorem gluedRun_not_recovered :
    ¬ ∀ (serde : Serde Unit), serde.PrefixFree → ∀ events : List (Happening Unit),
      Recovered serde (after (Machine.step serde) .new events) := by
  intro hall
  obtain ⟨entries, hkept, hopen⟩ := hall receivedSerde.strict prefixFree_receivedSerde gluedRun
  have hwrites : Kept [.torn received, .completed received] entries := hkept
  rw [openFile_gluedRun] at hopen
  have hlookup := congrArg (AList.lookup "m1") hopen
  cases hwrites with
  | lost entry h =>
    cases h with
    | completed entry h =>
      cases h
      cases hlookup
  | landed entry h =>
    cases h with
    | completed entry h =>
      cases h
      cases hlookup

end LibreFang.Journal
