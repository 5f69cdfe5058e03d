import LibreFang.Lib.Runs
import LibreFang.Wire.Peers

/-!
# The handshake

Any number of nodes share a secret. A network that does not know it hands over any message.

* `handshakeRequest`, `acceptAck`: the initiator's side, of `connect_to_peer_with_id` and
  `send_to_peer`; `handleInbound`: the responder's side.
* **`handshake_agreement`**: an initiator that accepts an ack agrees with a responder on the nonces
  and the key, as long as no captured MAC is handed over as the ack of another handshake.
* **`request_accepted_as_ack`**: a captured request passes as an ack.
-/

namespace LibreFang.Wire

open Text Runs

/-! ## Nodes -/

/-- `PeerConfig`: what the handshake reads of it. -/
structure PeerConfig where
  nodeId : String
  nodeName : String
  sharedSecret : String
  deriving DecidableEq, Repr

/-- `PeerNode`: what the handshake reads and writes. -/
structure PeerNode where
  config : PeerConfig
  registry : PeerRegistry
  nonceTracker : NonceTracker
  deriving DecidableEq, Repr

/-- A session a side has derived the key of. -/
structure Session where
  peerNodeId : String
  initiatorNonce : String
  responderNonce : String
  key : String
  deriving DecidableEq, Repr

variable (P : Platform)

/-- The text under the MAC of a handshake message. -/
def authData (nonce sender recipient : String) : List UInt8 :=
  utf8 (nonce ++ "|" ++ sender ++ "|" ++ recipient)

/-! ### The initiator -/

/-- The message an initiator sends first. -/
def handshakeRequest (c : PeerConfig) (id ourNonce recipientNodeId : String)
    (agents : List RemoteAgentInfo) : WireMessage where
  id
  kind := .request (.handshake c.nodeId c.nodeName protocolVersion agents ourNonce
    (hmacSign P c.sharedSecret (authData ourNonce c.nodeId recipientNodeId)))

/-- What an initiator does with the answer; `record` is what it does with the registry. -/
def acceptAck (record : PeerRegistry → PeerEntry → PeerRegistry) (n : PeerNode)
    (address ourNonce : String) (received : Except WireError WireMessage) (now : ℕ) :
    Except WireError Session × PeerNode :=
  match received with
  | .error e => (.error e, n)
  | .ok response =>
    match response.kind with
    | .response (.handshakeAck nodeId nodeName version agents ackNonce ackHmac) =>
      if version ≠ protocolVersion then (.error (.versionMismatch protocolVersion version), n)
      else if !hmacVerify P n.config.sharedSecret (authData ackNonce nodeId n.config.nodeId)
          ackHmac then
        (.error (.handshakeFailed "HMAC verification failed on HandshakeAck"), n)
      else
        match n.nonceTracker.checkAndRecord now ackNonce with
        | (.error replayErr, tracker) =>
          (.error (.handshakeFailed replayErr), { n with nonceTracker := tracker })
        | (.ok (), tracker) =>
          (.ok ⟨nodeId, ourNonce, ackNonce,
            deriveSessionKey P n.config.sharedSecret ourNonce ackNonce⟩,
            { n with
              nonceTracker := tracker
              registry := record n.registry ⟨nodeId, nodeName, address, agents, .connected,
                version⟩ })
    | .response (.error code message) =>
      (.error (.handshakeFailed ("Remote error " ++ toString code ++ ": " ++ message)), n)
    | _ => (.error (.handshakeFailed "Unexpected response to handshake"), n)

/-- What the initiator opened the connection for. -/
inductive Purpose
  | connect
  | send
  deriving DecidableEq, Repr

/-- `connect_to_peer_with_id` registers the peer; `send_to_peer` does not. -/
def Purpose.record : Purpose → PeerRegistry → PeerEntry → PeerRegistry
  | .connect => PeerRegistry.addPeer
  | .send => fun r _ => r

/-! ### The responder -/

/-- An error that the responder answers with before it gives up. -/
def refuse (id : String) (code : ℤ) (message : String) (error : WireError)
    (writeError : Option IoError) : Except WireError Session × List WireMessage :=
  match writeError with
  | some e => (.error (.io e), [])
  | none => (.error error, [{ id, kind := .response (.error code message) }])

/-- `handle_inbound` up to its message loop: the session, what it wrote, and the node after it. -/
def handleInbound (n : PeerNode) (address : String) (received : Except WireError WireMessage)
    (ackNonce : String) (localAgents : List RemoteAgentInfo) (writeError : Option IoError)
    (now : ℕ) : (Except WireError Session × List WireMessage) × PeerNode :=
  match received with
  | .error e => ((.error e, []), n)
  | .ok msg =>
    match msg.kind with
    | .request (.handshake nodeId nodeName version agents nonce authHmac) =>
      if version ≠ protocolVersion then
        (refuse msg.id 1 ("Protocol version mismatch: expected " ++ toString protocolVersion ++
          ", got " ++ toString version) (.versionMismatch protocolVersion version) writeError, n)
      else if !hmacVerify P n.config.sharedSecret (authData nonce nodeId n.config.nodeId)
          authHmac then
        (refuse msg.id 403 "HMAC authentication failed"
          (.handshakeFailed "HMAC verification failed on incoming Handshake") writeError, n)
      else
        match n.nonceTracker.checkAndRecord now nonce with
        | (.error replayErr, tracker) =>
          (refuse msg.id 403 "Nonce replay rejected" (.handshakeFailed replayErr) writeError,
            { n with nonceTracker := tracker })
        | (.ok (), tracker) =>
          let n := { n with nonceTracker := tracker }
          match writeError with
          | some e => ((.error (.io e), []), n)
          | none =>
            ((.ok ⟨nodeId, nonce, ackNonce,
              deriveSessionKey P n.config.sharedSecret nonce ackNonce⟩,
              [{ id := msg.id
                 kind := .response (.handshakeAck n.config.nodeId n.config.nodeName
                   protocolVersion localAgents ackNonce (hmacSign P n.config.sharedSecret
                     (authData ackNonce n.config.nodeId nodeId))) }]),
              { n with registry := n.registry.addPeer ⟨nodeId, nodeName, address, agents,
                .connected, version⟩ })
    | _ =>
      (refuse msg.id 401 "Authentication required: complete HMAC handshake first"
        (.handshakeFailed "Rejected unauthenticated request — handshake required") writeError, n)

/-! ### What an accepted message says -/

variable {P} {received : Except WireError WireMessage}
  {record : PeerRegistry → PeerEntry → PeerRegistry} {now : ℕ} {n : PeerNode}

theorem acceptAck_config
    {address ourNonce : String} :
    (acceptAck P record n address ourNonce received now).2.config = n.config := by
  unfold acceptAck
  repeat' split
  all_goals rfl

variable {s : Session}

theorem acceptAck_ok
    {address ourNonce : String}
    (h : (acceptAck P record n address ourNonce received now).1 = .ok s) :
    ∃ id nodeId nodeName version agents ackNonce, received = .ok ⟨id, .response (.handshakeAck
      nodeId nodeName version agents ackNonce
      (hmacSign P n.config.sharedSecret (authData ackNonce nodeId n.config.nodeId)))⟩ ∧
      s = ⟨nodeId, ourNonce, ackNonce,
        deriveSessionKey P n.config.sharedSecret ourNonce ackNonce⟩ := by
  unfold acceptAck at h
  split at h
  · cases h
  · rename_i response
    obtain ⟨id, kind⟩ := response
    split at h
    · rename_i nodeId nodeName version agents ackNonce ackHmac hkind
      simp only at hkind
      subst hkind
      split_ifs at h with hversion hmac
      · split at h
        · cases h
        · obtain rfl := (hmacVerify_iff P).mp (by simpa using hmac)
          exact ⟨id, nodeId, nodeName, version, agents, ackNonce, rfl, (Except.ok.inj h).symm⟩
    · cases h
    · cases h

variable {agents : List RemoteAgentInfo}

theorem acceptAck_of_valid
    {address ourNonce id nodeId nodeName ackNonce : String}
    (hnew : (n.nonceTracker.checkAndRecord now ackNonce).1 = .ok ()) :
    (acceptAck P record n address ourNonce (.ok ⟨id, .response (.handshakeAck nodeId nodeName
      protocolVersion agents ackNonce
      (hmacSign P n.config.sharedSecret (authData ackNonce nodeId n.config.nodeId)))⟩) now).1 =
      .ok ⟨nodeId, ourNonce, ackNonce,
        deriveSessionKey P n.config.sharedSecret ourNonce ackNonce⟩ := by
  have hmac := (hmacVerify_iff P).mpr
    (rfl : hmacSign P n.config.sharedSecret (authData ackNonce nodeId n.config.nodeId) = _)
  unfold acceptAck
  dsimp only
  rw [if_neg (not_not.mpr rfl), hmac, if_neg (by decide)]
  split
  · rename_i replayErr tracker herr
    rw [herr] at hnew
    cases hnew
  · rfl

variable {writeError : Option IoError} {address ackNonce : String}

theorem handleInbound_config :
    (handleInbound P n address received ackNonce agents writeError now).2.config = n.config := by
  unfold handleInbound
  repeat' split
  all_goals rfl

theorem refuse_ne_ok {id message : String} {code : ℤ} {error : WireError} :
    (refuse id code message error writeError).1 ≠ .ok s := by
  unfold refuse
  split <;> simp

theorem handleInbound_ok {localAgents : List RemoteAgentInfo}
    (h : (handleInbound P n address received ackNonce localAgents writeError now).1.1 = .ok s) :
    ∃ id nodeId nodeName version agents nonce, received = .ok ⟨id, .request (.handshake
      nodeId nodeName version agents nonce
      (hmacSign P n.config.sharedSecret (authData nonce nodeId n.config.nodeId)))⟩ ∧
      s = ⟨nodeId, nonce, ackNonce,
        deriveSessionKey P n.config.sharedSecret nonce ackNonce⟩ := by
  unfold handleInbound at h
  split at h
  · cases h
  · rename_i msg
    obtain ⟨id, kind⟩ := msg
    split at h
    · rename_i nodeId nodeName version agents nonce authHmac hkind
      simp only at hkind
      subst hkind
      split_ifs at h with hversion hmac
      · exact absurd h refuse_ne_ok
      · exact absurd h refuse_ne_ok
      · split at h
        · exact absurd h refuse_ne_ok
        · dsimp only at h
          split at h
          · cases h
          · obtain rfl := (hmacVerify_iff P).mp (by simpa using hmac)
            exact ⟨id, nodeId, nodeName, version, agents, nonce, rfl, (Except.ok.inj h).symm⟩
    · exact absurd h refuse_ne_ok

theorem handleInbound_of_valid {address id nodeId nodeName nonce ackNonce : String}
    {agents localAgents : List RemoteAgentInfo}
    (hnew : (n.nonceTracker.checkAndRecord now nonce).1 = .ok ()) :
    (handleInbound P n address (.ok ⟨id, .request (.handshake nodeId nodeName protocolVersion agents
      nonce (hmacSign P n.config.sharedSecret (authData nonce nodeId n.config.nodeId)))⟩)
      ackNonce localAgents none now).1.1 =
      .ok ⟨nodeId, nonce, ackNonce,
        deriveSessionKey P n.config.sharedSecret nonce ackNonce⟩ := by
  have hmac := (hmacVerify_iff P).mpr
    (rfl : hmacSign P n.config.sharedSecret (authData nonce nodeId n.config.nodeId) = _)
  unfold handleInbound
  dsimp only
  rw [if_neg (not_not.mpr rfl), hmac, if_neg (by decide)]
  split
  · rename_i replayErr tracker herr
    rw [herr] at hnew
    cases hnew
  · rfl

/-! ## Many nodes -/

/-- A handshake an initiator has begun, and what came of it. -/
structure Initiation (ι : Type) where
  node : ι
  purpose : Purpose
  nonce : String
  recipient : String
  outcome : Option (Except WireError Session)

/-- The nodes, the handshakes they began, the sessions they accepted, and all they wrote. -/
structure World (ι : Type) where
  nodes : ι → PeerNode
  initiations : List (Initiation ι)
  acceptances : List (ι × Session)
  wire : List WireMessage

/-- A move: a node begins a handshake, the `k`-th handshake gets its answer, or a node gets the
first message of an inbound connection. What is received is up to the network. -/
inductive Move (ι : Type)
  | connect (i : ι) (purpose : Purpose) (id nonce recipient : String)
      (agents : List RemoteAgentInfo) (writeError : Option IoError)
  | finish (k : ℕ) (address : String) (received : Except WireError WireMessage) (now : ℕ)
  | inbound (i : ι) (address : String) (received : Except WireError WireMessage)
      (ackNonce : String) (agents : List RemoteAgentInfo) (writeError : Option IoError) (now : ℕ)

variable {ι : Type} [DecidableEq ι]

section Step

variable (P) (w : World ι)

/-- The `k`-th handshake `s` gets its answer. -/
def World.answer (k : ℕ) (s : Initiation ι) (address : String)
    (received : Except WireError WireMessage) (now : ℕ) : World ι :=
  let r := acceptAck P s.purpose.record (w.nodes s.node) address s.nonce received now
  { w with
    nodes := Function.update w.nodes s.node r.2
    initiations := w.initiations.set k { s with outcome := some r.1 } }

/-- Node `i` gets the first message of an inbound connection. -/
def World.inbound (i : ι) (address : String) (received : Except WireError WireMessage)
    (ackNonce : String) (agents : List RemoteAgentInfo) (writeError : Option IoError) (now : ℕ) :
    World ι :=
  let r := handleInbound P (w.nodes i) address received ackNonce agents writeError now
  { w with
    nodes := Function.update w.nodes i r.2
    acceptances :=
      match r.1.1 with
      | .ok s => w.acceptances ++ [(i, s)]
      | .error _ => w.acceptances
    wire := w.wire ++ r.1.2 }

/-- One move of the world. -/
def World.step : Move ι → World ι
  | .connect i purpose id nonce recipient agents writeError =>
    match writeError with
    | some _ => w
    | none =>
      { w with
        initiations := w.initiations ++ [⟨i, purpose, nonce, recipient, none⟩]
        wire := w.wire ++ [handshakeRequest P (w.nodes i).config id nonce recipient agents] }
  | .finish k address received now =>
    match w.initiations[k]? with
    | none => w
    | some s =>
      match s.outcome with
      | some _ => w
      | none => w.answer P k s address received now
  | .inbound i address received ackNonce agents writeError now =>
    w.inbound P i address received ackNonce agents writeError now

theorem World.step_finish (k : ℕ) (address : String) (received : Except WireError WireMessage)
    (now : ℕ) : w.step P (.finish k address received now) = w ∨
      ∃ s, w.initiations[k]? = some s ∧
        w.step P (.finish k address received now) = w.answer P k s address received now := by
  cases hk : w.initiations[k]? with
  | none =>
    left
    simp only [World.step, hk]
  | some s =>
    cases hout : s.outcome with
    | some r =>
      left
      simp only [World.step, hk, hout]
    | none =>
      right
      exact ⟨s, rfl, by simp only [World.step, hk, hout]⟩

end Step

/-- The node id a world knows a node by. -/
def World.nodeId (w : World ι) (i : ι) : String := (w.nodes i).config.nodeId

/-- The text under the MAC of a handshake request. -/
def World.requestData (w : World ι) (q : Initiation ι) : List UInt8 :=
  authData q.nonce (w.nodeId q.node) q.recipient

/-- The text under the MAC of an ack. -/
def World.ackData (w : World ι) (a : ι × Session) : List UInt8 :=
  authData a.2.responderNonce (w.nodeId a.1) a.2.peerNodeId

/-! ### Honest moves -/

/-- A UUID in its hyphenated form. -/
def IsUuid (s : String) : Prop :=
  s.toList.length = 36 ∧ ∀ c ∈ s.toList, (isAsciiHexdigit c || c == '-') = true

instance (s : String) : Decidable (IsUuid s) :=
  decidable_of_iff
    (s.toList.length = 36 ∧ s.toList.all (fun c => isAsciiHexdigit c || c == '-') = true)
    (and_congr_right' List.all_eq_true)

/-- The nonces the nodes have generated. -/
def World.nonces (w : World ι) : List String :=
  w.initiations.map Initiation.nonce ++ w.acceptances.map fun a => a.2.responderNonce

/-- A MAC over this text is on the wire. -/
def World.Signed (w : World ι) (data : List UInt8) : Prop :=
  (∃ q ∈ w.initiations, data = w.requestData q) ∨ ∃ a ∈ w.acceptances, data = w.ackData a

/-- The nonces are new UUIDs, and a MAC that a node verifies is over a text some node signed. -/
def Honest (P : Platform) (secret : String) (w : World ι) : Move ι → Prop
  | .connect _ _ _ nonce _ _ _ => IsUuid nonce ∧ nonce ∉ w.nonces
  | .finish k _ received _ =>
    ∀ s, w.initiations[k]? = some s → ∀ id nodeId nodeName version agents nonce tag,
      received = .ok ⟨id, .response (.handshakeAck nodeId nodeName version agents nonce tag)⟩ →
      hmacVerify P secret (authData nonce nodeId (w.nodeId s.node)) tag = true →
      w.Signed (authData nonce nodeId (w.nodeId s.node))
  | .inbound i _ received ackNonce _ _ _ =>
    (IsUuid ackNonce ∧ ackNonce ∉ w.nonces) ∧
    ∀ id nodeId nodeName version agents nonce tag,
      received = .ok ⟨id, .request (.handshake nodeId nodeName version agents nonce tag)⟩ →
      hmacVerify P secret (authData nonce nodeId (w.nodeId i)) tag = true →
      w.Signed (authData nonce nodeId (w.nodeId i))

/-- A node id or nonce that the separator of the signed text does not occur in. -/
def NoBar (s : String) : Prop := '|' ∉ s.toList

/-- No captured MAC as an ack: the MAC of an ack handed to an initiator is neither that of a request
nor that of an ack that answered another handshake. Recipients are named without the separator. -/
def NotReplayed (P : Platform) (secret : String) (w : World ι) : Move ι → Prop
  | .connect _ _ _ _ recipient _ _ => NoBar recipient
  | .finish k _ received _ =>
    ∀ s, w.initiations[k]? = some s → ∀ id nodeId nodeName version agents nonce tag,
      received = .ok ⟨id, .response (.handshakeAck nodeId nodeName version agents nonce tag)⟩ →
      (∀ q ∈ w.initiations, tag ≠ hmacSign P secret (w.requestData q)) ∧
        ∀ a ∈ w.acceptances, tag = hmacSign P secret (w.ackData a) →
          a.2.initiatorNonce = s.nonce
  | .inbound .. => True

/-- A world before the first handshake, of nodes with one secret. -/
structure World.Initial (w : World ι) (secret : String) : Prop where
  secret_eq : ∀ i, (w.nodes i).config.sharedSecret = secret
  initiations : w.initiations = []
  acceptances : w.acceptances = []

/-- Every initiator that accepted an ack agrees with a responder that accepted its nonce: on who the
two are, on both nonces and on the key. -/
def World.Agreement (w : World ι) : Prop :=
  ∀ s ∈ w.initiations, ∀ session, s.outcome = some (.ok session) →
    ∃ a ∈ w.acceptances, w.nodeId a.1 = session.peerNodeId ∧ a.2.initiatorNonce = s.nonce ∧
      a.2.peerNodeId = w.nodeId s.node ∧ a.2.responderNonce = session.responderNonce ∧
      a.2.key = session.key

/-! ### Reading the signed text -/

theorem IsUuid.noBar {s : String} (h : IsUuid s) : NoBar s := fun hbar =>
  absurd (h.2 '|' hbar) (by decide)

theorem eq_of_splitOn_singleton {a x : List Char} (h : a.splitOn '|' = [x]) : a = x := by
  have hjoin : ['|'].intercalate (a.splitOn '|') = a := List.intercalate_splitOn '|'
  rw [← hjoin, h, List.intercalate_singleton]

theorem authData_inj {a b c x y z : String} (hx : NoBar x) (hy : NoBar y) (hz : NoBar z)
    (hc : NoBar c) (h : authData a b c = authData x y z) : a = x ∧ b = y ∧ c = z := by
  have hlist : a.toList ++ '|' :: (b.toList ++ '|' :: c.toList) =
      x.toList ++ '|' :: (y.toList ++ '|' :: z.toList) := by
    have := congrArg String.toList (utf8_injective h)
    simpa [String.toList_append] using this
  have hsplit := congrArg (List.splitOn '|') hlist
  simp only [List.splitOn_append_cons_self, List.splitOn_eq_singleton hx,
    List.splitOn_eq_singleton hy, List.splitOn_eq_singleton hz,
    List.splitOn_eq_singleton hc] at hsplit
  obtain ⟨p, ps, hp⟩ := List.exists_cons_of_ne_nil (List.splitOn_ne_nil '|' a.toList)
  obtain ⟨q, qs, hq⟩ := List.exists_cons_of_ne_nil (List.splitOn_ne_nil '|' b.toList)
  have hlen := congrArg List.length hsplit
  simp only [hp, hq, List.length_append, List.length_cons, List.length_nil] at hlen
  obtain rfl : ps = [] := List.length_eq_zero_iff.mp (by omega)
  obtain rfl : qs = [] := List.length_eq_zero_iff.mp (by omega)
  rw [hp, hq] at hsplit
  simp only [List.cons_append, List.nil_append, List.cons.injEq, and_true] at hsplit
  obtain ⟨hpx, hqy, hcz⟩ := hsplit
  refine ⟨String.toList_inj.mp ?_, String.toList_inj.mp ?_, String.toList_inj.mp hcz⟩
  · rw [← hpx, eq_of_splitOn_singleton hp]
  · rw [← hqy, eq_of_splitOn_singleton hq]

/-! ## Agreement -/

/-- The invariant of a run of honest moves without replayed acks. -/
structure World.Inv (w : World ι) (P : Platform) (secret : String) : Prop where
  secret_eq : ∀ i, (w.nodes i).config.sharedSecret = secret
  nodeId : ∀ i, NoBar (w.nodeId i)
  initiations : ∀ q ∈ w.initiations, NoBar q.nonce ∧ NoBar q.recipient
  acceptances : ∀ a ∈ w.acceptances, NoBar a.2.responderNonce ∧ NoBar a.2.peerNodeId ∧
    a.2.key = deriveSessionKey P secret a.2.initiatorNonce a.2.responderNonce
  agreement : w.Agreement

variable {secret : String} {w : World ι}

omit [DecidableEq ι] in
theorem World.Initial.inv (h : w.Initial secret) (hid : ∀ i, NoBar (w.nodeId i)) :
    w.Inv P secret where
  secret_eq := h.secret_eq
  nodeId := hid
  initiations := by
    rw [h.initiations]
    simp
  acceptances := by
    rw [h.acceptances]
    simp
  agreement := by
    intro s hs
    rw [h.initiations] at hs
    cases hs

omit [DecidableEq ι] in
theorem World.Inv.noBar_of_signed (h : w.Inv P secret) {nonce sender : String} {i : ι}
    (hs : w.Signed (authData nonce sender (w.nodeId i))) : NoBar nonce ∧ NoBar sender := by
  rcases hs with ⟨q, hq, he⟩ | ⟨a, ha, he⟩
  · obtain ⟨hn, hr⟩ := h.initiations q hq
    obtain ⟨rfl, rfl, -⟩ := authData_inj hn (h.nodeId q.node) hr (h.nodeId i) he
    exact ⟨hn, h.nodeId q.node⟩
  · obtain ⟨hn, hp, -⟩ := h.acceptances a ha
    obtain ⟨rfl, rfl, -⟩ := authData_inj hn (h.nodeId a.1) hp (h.nodeId i) he
    exact ⟨hn, h.nodeId a.1⟩

theorem update_config {nodes : ι → PeerNode} {i : ι} (hn : n.config = (nodes i).config) (j : ι) :
    (Function.update nodes i n j).config = (nodes j).config := by
  by_cases hj : j = i
  · subst hj
    rw [Function.update_self, hn]
  · rw [Function.update_of_ne hj]

theorem World.step_config (w : World ι) (m : Move ι) (j : ι) :
    ((w.step P m).nodes j).config = (w.nodes j).config := by
  cases m with
  | connect i purpose id nonce recipient agents writeError => cases writeError <;> rfl
  | finish k address received now =>
    rcases w.step_finish P k address received now with hstep | ⟨s, -, hstep⟩
    · rw [hstep]
    · rw [hstep]
      exact update_config acceptAck_config j
  | inbound i address received ackNonce agents writeError now =>
    exact update_config handleInbound_config j

theorem World.step_nodeId (w : World ι) (m : Move ι) (j : ι) :
    (w.step P m).nodeId j = w.nodeId j := congrArg PeerConfig.nodeId (w.step_config m j)

omit [DecidableEq ι] in
theorem World.Inv.agrees (h : w.Inv P secret) {k : ℕ} {address : String} {s : Initiation ι}
    (hs : w.initiations[k]? = some s) (hhonest : Honest P secret w (.finish k address received now))
    (hnew : NotReplayed P secret w (.finish k address received now)) {session : Session}
    (hok : (acceptAck P s.purpose.record (w.nodes s.node) address s.nonce received now).1 =
      .ok session) :
    ∃ a ∈ w.acceptances, w.nodeId a.1 = session.peerNodeId ∧ a.2.initiatorNonce = s.nonce ∧
      a.2.peerNodeId = w.nodeId s.node ∧ a.2.responderNonce = session.responderNonce ∧
      a.2.key = session.key := by
  obtain ⟨id, nodeId, nodeName, version, agents, ackNonce, hrec, rfl⟩ := acceptAck_ok hok
  rw [h.secret_eq s.node] at hrec ⊢
  obtain ⟨hnoreq, hack⟩ := hnew s hs id nodeId nodeName version agents ackNonce _ hrec
  have hsigned := hhonest s hs id nodeId nodeName version agents ackNonce _ hrec
    ((hmacVerify_iff P).mpr rfl)
  rcases hsigned with ⟨q, hq, hdata⟩ | ⟨a, ha, hdata⟩
  · exact absurd (congrArg (hmacSign P secret) hdata) (hnoreq q hq)
  · obtain ⟨hn, hp, hkey⟩ := h.acceptances a ha
    have hnonce := hack a ha (congrArg (hmacSign P secret) hdata)
    obtain ⟨rfl, rfl, hpeer⟩ := authData_inj hn (h.nodeId a.1) hp (h.nodeId s.node) hdata
    refine ⟨a, ha, rfl, hnonce, hpeer.symm, rfl, ?_⟩
    rw [hkey, hnonce]

omit [DecidableEq ι] in
theorem World.Inv.accepts (h : w.Inv P secret) {i : ι}
    (hhonest : Honest P secret w (.inbound i address received ackNonce agents writeError now))
    (hok : (handleInbound P (w.nodes i) address received ackNonce agents writeError now).1.1 =
      .ok s) :
    NoBar s.responderNonce ∧ NoBar s.peerNodeId ∧
      s.key = deriveSessionKey P secret s.initiatorNonce s.responderNonce := by
  obtain ⟨id, nodeId, nodeName, version, agents, nonce, hrec, rfl⟩ := handleInbound_ok hok
  rw [h.secret_eq i] at hrec ⊢
  have hsigned := hhonest.2 id nodeId nodeName version agents nonce _ hrec
    ((hmacVerify_iff P).mpr rfl)
  exact ⟨hhonest.1.1.noBar, (h.noBar_of_signed hsigned).2, rfl⟩

theorem World.Agreement.step {m : Move ι} (h : w.Agreement)
    (hacc : ∀ a ∈ w.acceptances, a ∈ (w.step P m).acceptances)
    (hinit : ∀ s ∈ (w.step P m).initiations, ∀ session, s.outcome = some (.ok session) →
      s ∈ w.initiations ∨ ∃ a ∈ w.acceptances, w.nodeId a.1 = session.peerNodeId ∧
        a.2.initiatorNonce = s.nonce ∧ a.2.peerNodeId = w.nodeId s.node ∧
        a.2.responderNonce = session.responderNonce ∧ a.2.key = session.key) :
    (w.step P m).Agreement := by
  intro s hs session hout
  have hold : ∃ a ∈ w.acceptances, w.nodeId a.1 = session.peerNodeId ∧
      a.2.initiatorNonce = s.nonce ∧ a.2.peerNodeId = w.nodeId s.node ∧
      a.2.responderNonce = session.responderNonce ∧ a.2.key = session.key := by
    rcases hinit s hs session hout with hs | hagree
    · exact h s hs session hout
    · exact hagree
  obtain ⟨a, ha, hagree⟩ := hold
  refine ⟨a, hacc a ha, ?_⟩
  rwa [w.step_nodeId, w.step_nodeId]

theorem World.mem_acceptances_inbound (w : World ι) {i : ι} {a : ι × Session} :
    a ∈ (w.inbound P i address received ackNonce agents writeError now).acceptances ↔
      a ∈ w.acceptances ∨ a.1 = i ∧ (handleInbound P (w.nodes i) address received ackNonce agents
        writeError now).1.1 = .ok a.2 := by
  unfold World.inbound
  dsimp only
  split
  · rename_i s hok
    rw [hok, List.mem_append, List.mem_singleton, Prod.ext_iff, Except.ok.injEq, eq_comm (b := s)]
  · rename_i e herr
    simp [herr]

/-- **An honest move without a replayed ack keeps the invariant.** -/
theorem World.Inv.step (h : w.Inv P secret) {m : Move ι} (hhonest : Honest P secret w m)
    (hnew : NotReplayed P secret w m) : (w.step P m).Inv P secret := by
  have hsecret : ∀ j, ((w.step P m).nodes j).config.sharedSecret = secret := fun j => by
    rw [w.step_config m j, h.secret_eq]
  have hid : ∀ j, NoBar ((w.step P m).nodeId j) := fun j => by
    rw [w.step_nodeId m j]
    exact h.nodeId j
  cases m with
  | connect i purpose id nonce recipient agents writeError =>
    cases writeError with
    | some e => exact h
    | none =>
      refine ⟨hsecret, hid, ?_, h.acceptances, h.agreement.step (fun a ha => ha) ?_⟩
      · intro q hq
        rcases List.mem_append.mp hq with hq | hq
        · exact h.initiations q hq
        · rw [List.mem_singleton.mp hq]
          exact ⟨hhonest.1.noBar, hnew⟩
      · intro s hs session hout
        rcases List.mem_append.mp hs with hs | hs
        · exact Or.inl hs
        · rw [List.mem_singleton.mp hs] at hout
          cases hout
  | finish k address received now =>
    rcases w.step_finish P k address received now with hstep | ⟨s, hs, hstep⟩
    · rwa [hstep]
    · have hmem := List.mem_of_getElem? hs
      refine ⟨hsecret, hid, ?_, ?_, h.agreement.step ?_ ?_⟩
      · intro q hq
        rw [hstep] at hq
        rcases List.mem_or_eq_of_mem_set hq with hq | rfl
        · exact h.initiations q hq
        · exact h.initiations s hmem
      · rw [hstep]
        exact h.acceptances
      · rw [hstep]
        exact fun a ha => ha
      · intro q hq session hout
        rw [hstep] at hq
        rcases List.mem_or_eq_of_mem_set hq with hq | rfl
        · exact Or.inl hq
        · exact Or.inr (h.agrees hs hhonest hnew (Option.some.inj hout))
  | inbound i address received ackNonce agents writeError now =>
    refine ⟨hsecret, hid, h.initiations, ?_, h.agreement.step ?_ fun s hs _ _ => Or.inl hs⟩
    · intro a ha
      rcases w.mem_acceptances_inbound.mp ha with ha | ⟨-, hok⟩
      · exact h.acceptances a ha
      · exact h.accepts hhonest hok
    · exact fun a ha => w.mem_acceptances_inbound.mpr (Or.inl ha)

/-- **Agreement in every run** of honest moves in which no captured MAC is handed over as an ack. -/
theorem handshake_agreement {w : World ι} (hw : w.Initial secret) (hid : ∀ i, NoBar (w.nodeId i))
    {ms : List (Move ι)} (hhonest : Along (World.step P) (Honest P secret) w ms)
    (hnew : Along (World.step P) (NotReplayed P secret) w ms) :
    (after (World.step P) w ms).Agreement := by
  have hinv : (after (World.step P) w ms).Inv P secret :=
    invariant (I := fun w => w.Inv P secret) (fun w m h hm => h.step hm.1 hm.2) (hw.inv hid)
      (along_and _ hhonest hnew)
  exact hinv.agreement

/-! ## Two nodes -/

/-- A node with the secret and an empty tracker. -/
def sampleNode (nodeId : String) : PeerNode where
  config := ⟨nodeId, nodeId, "s3cret"⟩
  registry := ⟨[]⟩
  nonceTracker := .new

/-- Two nodes with one secret. -/
def sampleWorld : World Bool where
  nodes b := sampleNode (if b then "node-b" else "node-a")
  initiations := []
  acceptances := []
  wire := []

/-- A nonce of the first node. -/
def nonceA : String := "6f1c0b9e-3d52-4a7e-9c41-0d2f5b8e7a10"

/-- A nonce of the second node. -/
def nonceB : String := "c2a4e8d0-91b7-4f3c-8e65-7b1d3f9a2c54"

/-- The MACs of the two nodes' handshake texts and their session key. -/
def handshakePlatform : Platform where
  hmacSha256 _ data :=
    if data = authData nonceA "node-a" "node-b" then
      [103, 69, 25, 76, 105, 77, 134, 52, 42, 83, 74, 56, 47, 30, 124, 116, 41, 243, 195, 206, 234,
        69, 186, 93, 27, 241, 1, 240, 192, 102, 124, 75]
    else if data = authData nonceB "node-b" "node-a" then
      [3, 140, 98, 119, 236, 26, 166, 23, 114, 80, 59, 38, 240, 6, 116, 242, 140, 184, 134, 180,
        213, 254, 125, 8, 240, 11, 58, 210, 247, 154, 97, 182]
    else
      [0x92, 0x7f, 0x37, 0x1c, 0xcb, 0xb5, 0xab, 0x44, 0xf4, 0xaa, 0x2b, 0xfa, 0x4a, 0xb1, 0x54,
        0x16, 0x9d, 0x36, 0xfc, 0x8d, 0x82, 0x34, 0x23, 0xce, 0x18, 0xd0, 0x27, 0xff, 0x21, 0x4b,
        0x3e, 0x71]
  toVec _ := .error "not framed here"
  fromSlice _ := .error "not framed here"

theorem sampleWorld_initial : sampleWorld.Initial "s3cret" where
  secret_eq _ := rfl
  initiations := rfl
  acceptances := rfl

theorem noBar_sampleWorld (b : Bool) : NoBar (sampleWorld.nodeId b) := by
  have hall : ∀ b, '|' ∉ (sampleWorld.nodeId b).toList := by decide
  exact hall b

theorem isUuid_nonceA : IsUuid nonceA := by decide

theorem isUuid_nonceB : IsUuid nonceB := by decide

theorem nonceA_ne_nonceB : nonceA ≠ nonceB := by decide

/-- The ack of the second node to the first. -/
def sampleAck (P : Platform) : WireMessage where
  id := "h-1"
  kind := .response (.handshakeAck "node-b" "node-b" protocolVersion [] nonceB
    (hmacSign P "s3cret" (authData nonceB "node-b" "node-a")))

theorem sampleAck_eq {P : Platform} {id nodeId nodeName nonce tag : String} {version : ℕ}
    (h : (.ok (sampleAck P) : Except WireError WireMessage) =
      .ok ⟨id, .response (.handshakeAck nodeId nodeName version agents nonce tag)⟩) :
    nodeId = "node-b" ∧ nonce = nonceB ∧
      tag = hmacSign P "s3cret" (authData nonceB "node-b" "node-a") := by
  simp only [sampleAck, Except.ok.injEq, WireMessage.mk.injEq, WireMessageKind.response.injEq,
    WireResponse.handshakeAck.injEq] at h
  exact ⟨h.2.1.symm, h.2.2.2.2.2.1.symm, h.2.2.2.2.2.2.symm⟩

/-! ### A handshake -/

/-- The first node shakes hands with the second, and the network hands over what they write. -/
def sampleHandshake (P : Platform) : List (Move Bool) :=
  [.connect false .connect "h-1" nonceA "node-b" [] none,
    .inbound true "10.0.0.1:4100" (.ok (handshakeRequest P (sampleNode "node-a").config "h-1"
      nonceA "node-b" [])) nonceB [] none 0,
    .finish 0 "10.0.0.2:4200" (.ok (sampleAck P)) 0]

theorem sampleHandshake_accepted (P : Platform) :
    (handleInbound P (sampleNode "node-b") "10.0.0.1:4100"
      (.ok (handshakeRequest P (sampleNode "node-a").config "h-1" nonceA "node-b" []))
      nonceB [] none 0).1.1 =
      .ok ⟨"node-a", nonceA, nonceB, deriveSessionKey P "s3cret" nonceA nonceB⟩ :=
  handleInbound_of_valid rfl

theorem sampleHandshake_honest (P : Platform) :
    Along (World.step P) (Honest P "s3cret") sampleWorld (sampleHandshake P) := by
  refine ⟨⟨isUuid_nonceA, List.not_mem_nil⟩, ⟨⟨isUuid_nonceB, ?_⟩, ?_⟩, ?_, trivial⟩
  · exact fun hmem => nonceA_ne_nonceB (List.mem_singleton.mp hmem).symm
  · intro id nodeId nodeName version agents nonce tag hrec _
    simp only [handshakeRequest, Except.ok.injEq, WireMessage.mk.injEq,
      WireMessageKind.request.injEq, WireRequest.handshake.injEq] at hrec
    obtain ⟨-, rfl, -, -, -, rfl, -⟩ := hrec
    exact Or.inl ⟨_, List.mem_cons_self, rfl⟩
  · intro s hs id nodeId nodeName version agents nonce tag hrec _
    obtain rfl := Option.some.inj hs
    obtain ⟨rfl, rfl, -⟩ := sampleAck_eq hrec
    have hacc := (World.mem_acceptances_inbound (World.step P sampleWorld (.connect false .connect
      "h-1" nonceA "node-b" [] none)) (a := (true, ⟨"node-a", nonceA, nonceB, deriveSessionKey P
        "s3cret" nonceA nonceB⟩))).mpr (Or.inr ⟨rfl, sampleHandshake_accepted P⟩)
    refine Or.inr ⟨_, hacc, ?_⟩
    rw [World.ackData, World.step_nodeId, World.step_nodeId, World.step_nodeId, World.step_nodeId]
    rfl

theorem sampleHandshake_notReplayed {P : Platform}
    (hne : hmacSign P "s3cret" (authData nonceB "node-b" "node-a") ≠
      hmacSign P "s3cret" (authData nonceA "node-a" "node-b")) :
    Along (World.step P) (NotReplayed P "s3cret") sampleWorld (sampleHandshake P) := by
  refine ⟨(by decide : '|' ∉ "node-b".toList), trivial, ?_, trivial⟩
  intro s hs id nodeId nodeName version agents nonce tag hrec
  obtain rfl := Option.some.inj hs
  obtain ⟨-, -, rfl⟩ := sampleAck_eq hrec
  constructor
  · intro q hq
    obtain rfl := List.mem_singleton.mp hq
    exact hne
  · intro a ha _
    rcases (World.mem_acceptances_inbound _).mp ha with ha | ⟨-, hok⟩
    · cases ha
    · have heq := Except.ok.inj (hok.symm.trans (sampleHandshake_accepted P))
      rw [heq]

theorem handshake_agreement_sample :
    (after (World.step handshakePlatform) sampleWorld
      (sampleHandshake handshakePlatform)).Agreement :=
  handshake_agreement sampleWorld_initial noBar_sampleWorld
    (sampleHandshake_honest handshakePlatform) (sampleHandshake_notReplayed (by decide +kernel))

/-! ### A reflected request -/

/-- Both nodes begin a handshake with the other; the first one gets the second one's own request
back, written as an ack. -/
def reflection (P : Platform) : List (Move Bool) :=
  [.connect true .connect "h-0" nonceB "node-a" [] none,
    .connect false .connect "h-1" nonceA "node-b" [] none,
    .finish 1 "10.0.0.2:4200" (.ok (sampleAck P)) 0]

theorem reflection_honest (P : Platform) :
    Along (World.step P) (Honest P "s3cret") sampleWorld (reflection P) := by
  refine ⟨⟨isUuid_nonceB, List.not_mem_nil⟩, ⟨isUuid_nonceA, ?_⟩, ?_, trivial⟩
  · exact fun hmem => nonceA_ne_nonceB (List.mem_singleton.mp hmem)
  · intro s hs id nodeId nodeName version agents nonce tag hrec _
    obtain rfl := Option.some.inj hs
    obtain ⟨rfl, rfl, -⟩ := sampleAck_eq hrec
    exact Or.inl ⟨_, List.mem_cons_self, rfl⟩

/-- **A captured request passes as an ack**: the first node completes a handshake that the second
one never accepted. -/
theorem request_accepted_as_ack :
    ¬∀ (P : Platform) (secret : String) (w : World Bool) (ms : List (Move Bool)),
      w.Initial secret → (∀ i, NoBar (w.nodeId i)) →
      Along (World.step P) (Honest P secret) w ms → (after (World.step P) w ms).Agreement := by
  intro hall
  have hagree := hall handshakePlatform "s3cret" sampleWorld (reflection handshakePlatform)
    sampleWorld_initial noBar_sampleWorld (reflection_honest handshakePlatform)
  have hok : (acceptAck handshakePlatform PeerRegistry.addPeer (sampleNode "node-a")
      "10.0.0.2:4200" nonceA (.ok (sampleAck handshakePlatform)) 0).1 = .ok ⟨"node-b", nonceA,
        nonceB, deriveSessionKey handshakePlatform "s3cret" nonceA nonceB⟩ :=
    acceptAck_of_valid rfl
  obtain ⟨a, ha, -⟩ := hagree _ (List.mem_cons_of_mem _ List.mem_cons_self) _
    (congrArg some hok)
  cases ha

end LibreFang.Wire
