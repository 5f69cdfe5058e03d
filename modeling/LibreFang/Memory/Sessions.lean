import LibreFang.Lib.Table
import LibreFang.Memory.Canonical

/-!
# Stored sessions

The table of the sessions, and the full-text index that is kept beside it.

* `Session`, `SessionRow`, `SearchEntry`, `SessionDb`: the data.
* `extractTextContent`: the text of a conversation that can be searched.
* `saveSession`, `deleteSession`, `deleteAgentSessions`: the writers of both tables.
* `cleanupExpiredSessions`, `cleanupExcessSessions`, `cleanupOrphanSessions`: the clean-ups.
-/

namespace LibreFang.Memory

open LibreFang.Session (Message)

/-! ## Sessions -/

/-- `SessionId`, by its text. -/
abbrev SessionId := String

/-- `AgentId`, by its text. -/
abbrev AgentId := String

/-- `Session`. -/
structure Session where
  id : SessionId
  agentId : AgentId
  messages : List Message
  contextWindowTokens : UInt64
  label : Option String

/-- A row of `sessions`, without its primary key; the times are RFC 3339 texts. -/
structure SessionRow where
  agentId : AgentId
  messages : List Message
  contextWindowTokens : Int64
  label : Option String
  createdAt : String
  updatedAt : String

/-- A row of `sessions_fts`. -/
structure SearchEntry where
  sessionId : SessionId
  agentId : AgentId
  content : String
  deriving DecidableEq, Repr

/-- The two tables. -/
structure SessionDb where
  sessions : Table SessionId SessionRow
  sessionsFts : List SearchEntry

/-- `MAX_PERSISTED_MESSAGES`. -/
def maxPersistedMessages : ℕ := 200

/-- `extract_text_content`. -/
def extractTextContent (messages : List Message) : String :=
  "\n".intercalate ((messages.map fun m => textContent m.content).filter fun t => !t.isEmpty)

/-- The messages that are stored: the last ones. -/
def messagesToPersist (messages : List Message) : List Message :=
  if maxPersistedMessages < messages.length then
    messages.drop (messages.length - maxPersistedMessages)
  else messages

/-- The row that `save_session` writes; on a conflict the agent and the time of creation stay. -/
def savedRow (existing : Option SessionRow) (session : Session) (now : String) : SessionRow where
  agentId := existing.elim session.agentId (·.agentId)
  messages := messagesToPersist session.messages
  contextWindowTokens := session.contextWindowTokens.toInt64
  label := session.label
  createdAt := existing.elim now (·.createdAt)
  updatedAt := now

/-- `save_session`, at a time. -/
def saveSession (db : SessionDb) (session : Session) (now : String) : SessionDb :=
  let content := extractTextContent (messagesToPersist session.messages)
  let cleared := db.sessionsFts.filter fun e => decide (e.sessionId ≠ session.id)
  { sessions := db.sessions.insert session.id
      (savedRow (db.sessions.lookup session.id) session now)
    sessionsFts :=
      if content.isEmpty then cleared else cleared ++ [⟨session.id, session.agentId, content⟩] }

/-- `delete_session`. -/
def deleteSession (db : SessionDb) (sessionId : SessionId) : SessionDb where
  sessions := db.sessions.erase sessionId
  sessionsFts := db.sessionsFts.filter fun e => decide (e.sessionId ≠ sessionId)

/-- `delete_agent_sessions`. -/
def deleteAgentSessions (db : SessionDb) (agentId : AgentId) : SessionDb where
  sessions := db.sessions.retain fun _ row => decide (row.agentId ≠ agentId)
  sessionsFts := db.sessionsFts.filter fun e => decide (e.agentId ≠ agentId)

/-- `DELETE FROM sessions WHERE ...`: how many rows are deleted, and the tables after it. -/
def deleteWhere (db : SessionDb) (p : SessionId → SessionRow → Bool) : ℕ × SessionDb :=
  ((db.sessions.entries.filter fun e => p e.1 e.2).length,
    { db with sessions := db.sessions.retain fun id row => !p id row })

/-- `cleanup_expired_sessions`; the cutoff is the text of the time `retention_days` ago. -/
def cleanupExpiredSessions (db : SessionDb) (retentionDays : ℕ) (cutoff : String) :
    ℕ × SessionDb :=
  if retentionDays = 0 then (0, db)
  else deleteWhere db fun _ row => decide (row.updatedAt < cutoff)

/-- `ROW_NUMBER() OVER (PARTITION BY agent_id ORDER BY updated_at DESC)`; rows with equal times are
ranked in an order of the database. -/
def rowNumber (db : SessionDb) (tie : SessionId → ℕ) (id : SessionId) (row : SessionRow) : ℕ :=
  (db.sessions.entries.filter fun e => decide (e.2.agentId = row.agentId ∧
    (row.updatedAt < e.2.updatedAt ∨ e.2.updatedAt = row.updatedAt ∧ tie e.1 ≤ tie id))).length

/-- `cleanup_excess_sessions`. -/
def cleanupExcessSessions (db : SessionDb) (maxPerAgent : ℕ) (tie : SessionId → ℕ) :
    ℕ × SessionDb :=
  if maxPerAgent = 0 then (0, db)
  else deleteWhere db fun id row => decide (maxPerAgent < rowNumber db tie id row)

/-- `cleanup_orphan_sessions`. -/
def cleanupOrphanSessions (db : SessionDb) (liveAgentIds : List AgentId) : ℕ × SessionDb :=
  if liveAgentIds.isEmpty then (0, db)
  else deleteWhere db fun _ row => decide (row.agentId ∉ liveAgentIds)

end LibreFang.Memory
