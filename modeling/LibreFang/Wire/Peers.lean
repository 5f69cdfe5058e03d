import LibreFang.Wire.Message

/-!
# What a node keeps about its peers

* `NonceTracker`: the handshake nonces seen in a time window.
* `PeerRateLimiter`: messages and tokens of each peer in the current minute and hour.
* `PeerRegistry`: the peers a node has shaken hands with.

Times are nanoseconds of the monotonic clock.
-/

namespace LibreFang.Wire

open Text

/-- `Duration::from_secs`. -/
def fromSecs (n : ℕ) : ℕ := n * 10 ^ 9

/-! ## Nonces -/

/-- `NonceTracker`. -/
structure NonceTracker where
  seen : List (String × ℕ)
  window : ℕ
  maxEntries : ℕ
  deriving DecidableEq, Repr

/-- `NonceTracker::new`. -/
def NonceTracker.new : NonceTracker where
  seen := []
  window := fromSecs 300
  maxEntries := 100000

/-- `check_and_record`: the answer and the tracker after it. -/
def NonceTracker.checkAndRecord (t : NonceTracker) (now : ℕ) (nonce : String) :
    Except String Unit × NonceTracker :=
  let gcThreshold := t.maxEntries * 4 / 5
  let t :=
    if t.seen.length ≥ gcThreshold then
      { t with seen := t.seen.filter fun e => decide (now - e.2 < t.window) }
    else t
  if t.seen.length ≥ t.maxEntries then
    (.error ("Nonce tracker at capacity (" ++ toString t.maxEntries ++
      " entries); rejecting to avoid unbounded growth"), t)
  else if t.seen.any fun e => e.1 == nonce then
    (.error ("Nonce replay detected: " ++ truncateStr nonce 16), t)
  else (.ok (), { t with seen := t.seen ++ [(nonce, now)] })

/-! ## Rate limits -/

/-- `PeerRateLimiter`: counters with the start of their window, for each peer. -/
structure PeerRateLimiter where
  msgCounts : String → Option (ℕ × ℕ)
  tokenCounts : String → Option (ℕ × ℕ)
  maxMsgsPerMinute : ℕ
  maxTokensPerHour : Option ℕ

/-- `PeerRateLimiter::new`. -/
def PeerRateLimiter.new (maxMsgsPerMinute : ℕ) (maxTokensPerHour : Option ℕ) :
    PeerRateLimiter where
  msgCounts := fun _ => none
  tokenCounts := fun _ => none
  maxMsgsPerMinute
  maxTokensPerHour

/-- `check_message`: the answer and the limiter after it. -/
def PeerRateLimiter.checkMessage (l : PeerRateLimiter) (now : ℕ) (peerId : String) :
    Except String Unit × PeerRateLimiter :=
  if l.maxMsgsPerMinute > 0 then
    let entry := (l.msgCounts peerId).getD (0, now)
    let set := fun e => { l with msgCounts := Function.update l.msgCounts peerId (some e) }
    if now - entry.2 ≥ fromSecs 60 then (.ok (), set (1, now))
    else if entry.1 + 1 > l.maxMsgsPerMinute then
      (.error ("Rate limit exceeded: " ++ toString (entry.1 + 1) ++
        " messages in the current minute (max " ++ toString l.maxMsgsPerMinute ++ ")"),
        set (entry.1 + 1, entry.2))
    else (.ok (), set (entry.1 + 1, entry.2))
  else (.ok (), l)

/-- `record_tokens`: the answer and the limiter after it. -/
def PeerRateLimiter.recordTokens (l : PeerRateLimiter) (now : ℕ) (peerId : String)
    (tokensUsed : ℕ) : Except String Unit × PeerRateLimiter :=
  match l.maxTokensPerHour with
  | none => (.ok (), l)
  | some maxTokens =>
    let entry := (l.tokenCounts peerId).getD (0, now)
    let set := fun e => { l with tokenCounts := Function.update l.tokenCounts peerId (some e) }
    if now - entry.2 ≥ fromSecs 3600 then (.ok (), set (tokensUsed, now))
    else if entry.1 + tokensUsed > maxTokens then
      (.error ("LLM token budget exceeded: " ++ toString (entry.1 + tokensUsed) ++
        " tokens in the current hour (max " ++ toString maxTokens ++ ")"),
        set (entry.1 + tokensUsed, entry.2))
    else (.ok (), set (entry.1 + tokensUsed, entry.2))

/-! ## The registry -/

/-- `PeerState`. -/
inductive PeerState
  | connected
  | disconnected
  deriving DecidableEq, Repr

/-- `PeerEntry`, with the address as its text. -/
structure PeerEntry where
  nodeId : String
  nodeName : String
  address : String
  agents : List RemoteAgentInfo
  state : PeerState
  protocolVersion : ℕ
  deriving DecidableEq, Repr

/-- `PeerRegistry`: at most one entry for each node id. -/
structure PeerRegistry where
  peers : List PeerEntry
  deriving DecidableEq, Repr

/-- `HashMap::get_mut` followed by an update. -/
def PeerRegistry.modify (r : PeerRegistry) (nodeId : String) (f : PeerEntry → PeerEntry) :
    PeerRegistry :=
  { peers := r.peers.map fun p => if p.nodeId = nodeId then f p else p }

/-- `add_peer`. -/
def PeerRegistry.addPeer (r : PeerRegistry) (entry : PeerEntry) : PeerRegistry :=
  if r.peers.any fun p => p.nodeId == entry.nodeId then r.modify entry.nodeId fun _ => entry
  else { peers := r.peers ++ [entry] }

/-- `mark_disconnected`. -/
def PeerRegistry.markDisconnected (r : PeerRegistry) (nodeId : String) : PeerRegistry :=
  r.modify nodeId fun p => { p with state := .disconnected }

/-- Replacing the first agent with the id of the new one, or adding it. -/
def upsertAgent (agent : RemoteAgentInfo) : List RemoteAgentInfo → List RemoteAgentInfo
  | [] => [agent]
  | a :: rest => if a.id = agent.id then agent :: rest else a :: upsertAgent agent rest

/-- `add_agent`. -/
def PeerRegistry.addAgent (r : PeerRegistry) (nodeId : String) (agent : RemoteAgentInfo) :
    PeerRegistry :=
  r.modify nodeId fun p => { p with agents := upsertAgent agent p.agents }

/-- `remove_agent`. -/
def PeerRegistry.removeAgent (r : PeerRegistry) (nodeId agentId : String) : PeerRegistry :=
  r.modify nodeId fun p => { p with agents := p.agents.filter fun a => a.id != agentId }

end LibreFang.Wire
