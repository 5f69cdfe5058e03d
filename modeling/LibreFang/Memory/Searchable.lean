import LibreFang.Lib.Runs
import LibreFang.Memory.Sessions

/-!
# The search index of the sessions

* `Searchable`: every stored session with text has one entry, with the text of its messages; there
  are no other entries.
* `Write`, `write`: the operations on the two tables.
* `KeepsIndex`: a clean-up deletes only rows without text, and the sessions of an agent are deleted
  when the two tables agree on them.
* **`searchable_iff_keepsIndex`**: the index is consistent in every state of a run exactly if every
  step is of this kind.
-/

namespace LibreFang.Memory

open Runs

/-! ## The consistent index -/

/-- The contents of the entries of a session. -/
def SessionDb.contents (db : SessionDb) (id : SessionId) : List String :=
  (db.sessionsFts.filter fun e => decide (e.sessionId = id)).map (·.content)

/-- The text that is indexed for a session, if any. -/
def SessionRow.indexed (row : SessionRow) : List String :=
  if (extractTextContent row.messages).isEmpty then [] else [extractTextContent row.messages]

/-- A session has an entry exactly if it is stored and its text is not empty; it has one entry
then, and the entry holds the text. -/
def Searchable (db : SessionDb) : Prop :=
  ∀ id, db.contents id = (db.sessions.lookup id).elim [] SessionRow.indexed

variable {db : SessionDb} {id : SessionId} {row : SessionRow}

theorem indexed_eq_nil : row.indexed = [] ↔ (extractTextContent row.messages).isEmpty = true := by
  unfold SessionRow.indexed
  split_ifs with h
  · exact iff_of_true rfl h
  · exact iff_of_false nofun h

theorem contents_filter (db : SessionDb) (sessions : Table SessionId SessionRow)
    (p : SearchEntry → Bool) (id : SessionId) :
    SessionDb.contents ⟨sessions, db.sessionsFts.filter p⟩ id =
      ((db.sessionsFts.filter fun e => decide (e.sessionId = id)).filter p).map (·.content) := by
  unfold SessionDb.contents
  dsimp only
  rw [List.filter_filter, List.filter_filter]
  simp only [Bool.and_comm]

theorem contents_clear (db : SessionDb) (sessions : Table SessionId SessionRow)
    (id id' : SessionId) :
    SessionDb.contents ⟨sessions, db.sessionsFts.filter fun e => decide (e.sessionId ≠ id)⟩ id' =
      if id' = id then [] else db.contents id' := by
  rw [contents_filter]
  split_ifs with hid
  · have hnone : ((db.sessionsFts.filter fun e => decide (e.sessionId = id')).filter
        fun e => decide (e.sessionId ≠ id)) = [] := by
      rw [List.filter_eq_nil_iff]
      intro e he hne
      exact of_decide_eq_true hne ((of_decide_eq_true (List.mem_filter.mp he).2).trans hid)
    rw [hnone]
    rfl
  · have hall : ((db.sessionsFts.filter fun e => decide (e.sessionId = id')).filter
        fun e => decide (e.sessionId ≠ id)) =
        db.sessionsFts.filter fun e => decide (e.sessionId = id') := by
      rw [List.filter_eq_self]
      intro e he
      exact decide_eq_true fun heq =>
        hid ((of_decide_eq_true (List.mem_filter.mp he).2).symm.trans heq)
    rw [hall]
    rfl

theorem searchable_saveSession (h : Searchable db) (session : Session) (now : String) :
    Searchable (saveSession db session now) := by
  intro id
  have hcleared := contents_clear db
    (db.sessions.insert session.id (savedRow (db.sessions.lookup session.id) session now))
    session.id id
  unfold saveSession
  dsimp only
  by_cases hid : id = session.id
  · subst hid
    rw [AList.lookup_insert]
    rw [if_pos rfl] at hcleared
    unfold SessionRow.indexed savedRow
    dsimp only [Option.elim_some]
    split_ifs with hempty
    · exact hcleared
    · unfold SessionDb.contents at hcleared ⊢
      dsimp only at hcleared ⊢
      rw [List.filter_append, List.map_append, hcleared, List.filter_singleton]
      simp
  · rw [AList.lookup_insert_ne hid, ← h id]
    rw [if_neg hid] at hcleared
    split_ifs with hempty
    · exact hcleared
    · rw [← hcleared]
      unfold SessionDb.contents
      dsimp only
      rw [List.filter_append, List.filter_singleton]
      simp [Ne.symm hid]

theorem searchable_deleteSession (h : Searchable db) (sessionId : SessionId) :
    Searchable (deleteSession db sessionId) := by
  intro id
  unfold deleteSession
  rw [contents_clear]
  split_ifs with hid
  · subst hid
    dsimp only
    rw [AList.lookup_erase]
    rfl
  · dsimp only
    rw [AList.lookup_erase_ne hid]
    exact h id

/-! ## Deleting many rows -/

/-- The rows that are meant have no text. -/
def EmptyWhere (db : SessionDb) (p : SessionId → SessionRow → Bool) : Prop :=
  ∀ id row, db.sessions.lookup id = some row → p id row = true →
    (extractTextContent row.messages).isEmpty = true

theorem searchable_deleteWhere (h : Searchable db) (p : SessionId → SessionRow → Bool) :
    Searchable (deleteWhere db p).2 ↔ EmptyWhere db p := by
  have hlookup (id : SessionId) : (deleteWhere db p).2.sessions.lookup id =
      (db.sessions.lookup id).filter fun row => !p id row := Table.lookup_retain _ id
  have hcontents (id : SessionId) : (deleteWhere db p).2.contents id = db.contents id := rfl
  constructor
  · intro hafter id row hrow hp
    have hold := h id
    have hnew := hafter id
    rw [hcontents, hlookup, hold, hrow, Option.filter_some, hp] at hnew
    exact indexed_eq_nil.mp hnew
  · intro hempty id
    rw [hcontents, hlookup, h id]
    cases hrow : db.sessions.lookup id with
    | none => rfl
    | some row =>
      rw [Option.filter_some]
      cases hp : p id row with
      | false => rfl
      | true => exact indexed_eq_nil.mpr (hempty id row hrow hp)

/-- The tables agree on which sessions are the agent's. -/
def AgreeOn (db : SessionDb) (agentId : AgentId) : Prop :=
  ∀ e ∈ db.sessionsFts, ∀ row, db.sessions.lookup e.sessionId = some row →
    (row.agentId = agentId ↔ e.agentId = agentId)

theorem exists_entry (h : Searchable db) (hrow : db.sessions.lookup id = some row)
    (htext : (extractTextContent row.messages).isEmpty = false) :
    ∃ e, (db.sessionsFts.filter fun e => decide (e.sessionId = id)) = [e] := by
  have hcontents := h id
  rw [hrow, Option.elim_some] at hcontents
  unfold SessionDb.contents SessionRow.indexed at hcontents
  rw [if_neg (by rw [htext]; exact Bool.false_ne_true)] at hcontents
  obtain ⟨e, he, -⟩ := List.map_eq_singleton_iff.mp hcontents
  exact ⟨e, he⟩

/-- **Deleting the sessions of an agent keeps the index consistent exactly if the tables agree on
which they are.** -/
theorem searchable_deleteAgentSessions (h : Searchable db) (agentId : AgentId) :
    Searchable (deleteAgentSessions db agentId) ↔ AgreeOn db agentId := by
  have hlookup (id : SessionId) : (deleteAgentSessions db agentId).sessions.lookup id =
      (db.sessions.lookup id).filter fun row => decide (row.agentId ≠ agentId) :=
    Table.lookup_retain _ id
  have hcontents (id : SessionId) := contents_filter db
    (db.sessions.retain fun _ row => decide (row.agentId ≠ agentId))
    (fun e => decide (e.agentId ≠ agentId)) id
  constructor
  · intro hafter e he row hrow
    have htext : (extractTextContent row.messages).isEmpty = false := by
      by_contra hempty
      have hnone := h e.sessionId
      rw [hrow, Option.elim_some, indexed_eq_nil.mpr (Bool.not_eq_false _ ▸ hempty)] at hnone
      have hmem : e.content ∈ db.contents e.sessionId :=
        List.mem_map_of_mem (List.mem_filter.mpr ⟨he, decide_eq_true rfl⟩)
      rw [hnone] at hmem
      cases hmem
    obtain ⟨e', he'⟩ := exists_entry h hrow htext
    have hmem : e ∈ db.sessionsFts.filter fun e' => decide (e'.sessionId = e.sessionId) :=
      List.mem_filter.mpr ⟨he, decide_eq_true rfl⟩
    rw [he', List.mem_singleton] at hmem
    subst hmem
    have hindexed : row.indexed ≠ [] := fun hnil => by
      rw [indexed_eq_nil.mp hnil] at htext
      cases htext
    have hnew := hafter e.sessionId
    rw [hlookup, hrow, Option.filter_some] at hnew
    unfold deleteAgentSessions at hnew
    rw [hcontents, he', List.filter_singleton] at hnew
    by_cases hrowAgent : row.agentId = agentId
    · refine iff_of_true hrowAgent ?_
      by_contra hne
      rw [decide_eq_true hne, decide_eq_false fun hneRow => hneRow hrowAgent] at hnew
      cases hnew
    · refine iff_of_false hrowAgent fun hentry => ?_
      rw [decide_eq_false fun hne => hne hentry, decide_eq_true hrowAgent] at hnew
      exact hindexed hnew.symm
  · intro hagree id
    rw [hlookup]
    unfold deleteAgentSessions
    rw [hcontents]
    cases hrow : db.sessions.lookup id with
    | none =>
      have hnone := h id
      rw [hrow, Option.elim_none] at hnone
      rw [List.map_eq_nil_iff.mp hnone]
      rfl
    | some row =>
      cases htext : (extractTextContent row.messages).isEmpty with
      | true =>
        have hnil := indexed_eq_nil.mpr htext
        have hnone := h id
        rw [hrow, Option.elim_some, hnil] at hnone
        rw [List.map_eq_nil_iff.mp hnone, Option.filter_some]
        split_ifs
        · exact hnil.symm
        · rfl
      | false =>
        obtain ⟨e, he⟩ := exists_entry h hrow htext
        have hmem : e ∈ db.sessionsFts.filter fun e' => decide (e'.sessionId = id) := by
          rw [he]
          exact List.mem_cons_self
        obtain ⟨hin, hid⟩ := List.mem_filter.mp hmem
        obtain rfl := of_decide_eq_true hid
        have hsame := hagree e hin row hrow
        have hold := h e.sessionId
        rw [hrow, Option.elim_some] at hold
        unfold SessionDb.contents at hold
        rw [he] at hold
        rw [he, List.filter_singleton, Option.filter_some]
        by_cases hagent : row.agentId = agentId
        · rw [decide_eq_false fun hne => hne (hsame.mp hagent),
            decide_eq_false fun hne => hne hagent]
          rfl
        · have hentry : e.agentId ≠ agentId := fun heq => hagent (hsame.mpr heq)
          have hrowAgent : row.agentId ≠ agentId := hagent
          rw [decide_eq_true hentry, decide_eq_true hrowAgent]
          exact hold

/-! ## Runs -/

/-- An operation on the two tables. -/
inductive Write
  | saveSession (session : Session) (now : String)
  | deleteSession (sessionId : SessionId)
  | deleteAgentSessions (agentId : AgentId)
  | cleanupExpiredSessions (retentionDays : ℕ) (cutoff : String)
  | cleanupExcessSessions (maxPerAgent : ℕ) (tie : SessionId → ℕ)
  | cleanupOrphanSessions (liveAgentIds : List AgentId)

/-- The tables after an operation. -/
def write (db : SessionDb) : Write → SessionDb
  | .saveSession session now => saveSession db session now
  | .deleteSession sessionId => deleteSession db sessionId
  | .deleteAgentSessions agentId => deleteAgentSessions db agentId
  | .cleanupExpiredSessions retentionDays cutoff =>
    (cleanupExpiredSessions db retentionDays cutoff).2
  | .cleanupExcessSessions maxPerAgent tie => (cleanupExcessSessions db maxPerAgent tie).2
  | .cleanupOrphanSessions liveAgentIds => (cleanupOrphanSessions db liveAgentIds).2

/-- A clean-up means only rows without text; the sessions of an agent are deleted when the tables
agree on which they are. -/
def KeepsIndex (db : SessionDb) : Write → Prop
  | .saveSession .. => True
  | .deleteSession _ => True
  | .deleteAgentSessions agentId => AgreeOn db agentId
  | .cleanupExpiredSessions retentionDays cutoff =>
    retentionDays = 0 ∨ EmptyWhere db fun _ row => decide (row.updatedAt < cutoff)
  | .cleanupExcessSessions maxPerAgent tie =>
    maxPerAgent = 0 ∨ EmptyWhere db fun id row => decide (maxPerAgent < rowNumber db tie id row)
  | .cleanupOrphanSessions liveAgentIds =>
    liveAgentIds = [] ∨ EmptyWhere db fun _ row => decide (row.agentId ∉ liveAgentIds)

theorem searchable_write_iff (h : Searchable db) (w : Write) :
    Searchable (write db w) ↔ KeepsIndex db w := by
  cases w with
  | saveSession session now => exact iff_of_true (searchable_saveSession h session now) trivial
  | deleteSession sessionId => exact iff_of_true (searchable_deleteSession h sessionId) trivial
  | deleteAgentSessions agentId => exact searchable_deleteAgentSessions h agentId
  | cleanupExpiredSessions retentionDays cutoff =>
    dsimp only [write, cleanupExpiredSessions, KeepsIndex]
    split_ifs with hzero
    · exact iff_of_true h (.inl hzero)
    · rw [searchable_deleteWhere h, or_iff_right hzero]
  | cleanupExcessSessions maxPerAgent tie =>
    dsimp only [write, cleanupExcessSessions, KeepsIndex]
    split_ifs with hzero
    · exact iff_of_true h (.inl hzero)
    · rw [searchable_deleteWhere h, or_iff_right hzero]
  | cleanupOrphanSessions liveAgentIds =>
    dsimp only [write, cleanupOrphanSessions, KeepsIndex]
    split_ifs with hnil
    · exact iff_of_true h (.inl (List.isEmpty_iff.mp hnil))
    · rw [searchable_deleteWhere h, or_iff_right fun heq => hnil (List.isEmpty_iff.mpr heq)]

/-- The tables at first. -/
def SessionDb.empty : SessionDb := ⟨∅, []⟩

/-- **The search index is consistent in every state of a run** exactly if every clean-up deletes
only rows without text, and the sessions of an agent are deleted only when the tables agree on
them. -/
theorem searchable_iff_keepsIndex (ws : List Write) :
    (∀ bs cs, ws = bs ++ cs → Searchable (after write .empty bs)) ↔
      Along write KeepsIndex .empty ws := by
  have hnone : Along write (fun _ _ => True) SessionDb.empty ws :=
    (along_iff_forall write).mpr fun _ _ _ _ => trivial
  exact along_iff (I := Searchable) (fun _ w h _ => searchable_write_iff h w) (fun _ => rfl) hnone

/-- A session with one message. -/
def sampleSession : Session :=
  ⟨"s-1", "a-1", [⟨.user, .text "searchable content here", false, none⟩], 0, none⟩

/-- A session that is saved and then expires is still found. -/
theorem expired_not_searchable :
    ¬ Searchable (after write .empty [.saveSession sampleSession "2026-01-01T00:00:00+00:00",
      .cleanupExpiredSessions 30 "2026-03-01T00:00:00+00:00"]) := by
  intro h
  have hstale : ["searchable content here"] = [] := h "s-1"
  cases hstale

end LibreFang.Memory
