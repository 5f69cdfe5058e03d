import LibreFang.Wire.Framing
import LibreFang.Wire.Handshake

/-!
# Broadcast notifications

* `broadcastNotification`: what a node writes to its connected peers, one fresh connection each.
* `Platform.Delimits`: a JSON text ends where its value ends.
* **`broadcast_refused`**: the first message of the connection is not readable, and the node is left
  as it was.
* **`broadcast_never_applied`**: no node applies a notification that was broadcast.
-/

namespace LibreFang.Wire

open Text Runs

/-! ## The sender -/

/-- `connected_peers`. -/
def PeerRegistry.connectedPeers (r : PeerRegistry) : List PeerEntry :=
  r.peers.filter fun p => p.state = .connected

/-- What the surroundings contribute when a peer is notified: the id of the message, the nonce, and
whether the connection and the write succeed. -/
structure Attempt where
  id : String
  nonce : String
  connectError : Option IoError
  writeError : Option IoError
  deriving DecidableEq, Repr

section Sender

variable (P : Platform) (notification : WireNotification) (sharedSecret : String)

/-- The message that carries a notification. -/
def notificationMessage (id : String) : WireMessage where
  id
  kind := .notification notification

/-- What is written on the connection to one peer. -/
def notifyPeer (a : Attempt) : Except WireError (List UInt8) :=
  match a.connectError with
  | some e => .error (.io e)
  | none =>
    let sessionKey := hmacSign P sharedSecret (utf8 a.nonce)
    match encodeAuthenticated P sessionKey (notificationMessage notification a.id) with
    | .error e => .error e
    | .ok frame =>
      match a.writeError with
      | some e => .error (.io e)
      | none => .ok frame

/-- `broadcast_notification`: what was written to which peer, and the errors. -/
def broadcastNotification (registry : PeerRegistry) (attempt : PeerEntry → Attempt) :
    List (PeerEntry × List UInt8) × List (String × WireError) :=
  registry.connectedPeers.foldl (fun (sent, errors) peer =>
    match notifyPeer P notification sharedSecret (attempt peer) with
    | .ok frame => (sent ++ [(peer, frame)], errors)
    | .error e => (sent, errors ++ [(peer.nodeId, e)])) ([], [])

end Sender

section Written

variable {P : Platform} {notification : WireNotification} {sharedSecret : String}
  {frame : List UInt8}

theorem notifyPeer_ok {a : Attempt} (h : notifyPeer P notification sharedSecret a = .ok frame) :
    encodeAuthenticated P (hmacSign P sharedSecret (utf8 a.nonce))
      (notificationMessage notification a.id) = .ok frame := by
  unfold notifyPeer at h
  split at h
  · cases h
  · dsimp only at h
    split at h
    · cases h
    · rename_i frame' hframe
      split at h
      · cases h
      · rw [← Except.ok.inj h]
        exact hframe

theorem notifyPeer_of_broadcast {registry : PeerRegistry} {attempt : PeerEntry → Attempt}
    {peer : PeerEntry}
    (h : (peer, frame) ∈ (broadcastNotification P notification sharedSecret registry attempt).1) :
    notifyPeer P notification sharedSecret (attempt peer) = .ok frame := by
  unfold broadcastNotification at h
  generalize registry.connectedPeers = peers at h
  -- the accumulators: everything sent so far comes from an attempt
  suffices hall : ∀ sent errors, (∀ e ∈ sent,
      notifyPeer P notification sharedSecret (attempt e.1) = .ok e.2) →
      ∀ e ∈ (peers.foldl (fun (sent, errors) peer =>
        match notifyPeer P notification sharedSecret (attempt peer) with
        | .ok frame => (sent ++ [(peer, frame)], errors)
        | .error e => (sent, errors ++ [(peer.nodeId, e)])) (sent, errors)).1,
      notifyPeer P notification sharedSecret (attempt e.1) = .ok e.2 by
    exact hall [] [] (fun e he => absurd he List.not_mem_nil) _ h
  clear h
  induction peers with
  | nil => exact fun sent errors hsent => hsent
  | cons p peers ih =>
    intro sent errors hsent
    rw [List.foldl_cons]
    cases hp : notifyPeer P notification sharedSecret (attempt p) with
    | error e => exact ih sent _ hsent
    | ok frame' =>
      refine ih _ errors fun e he => ?_
      rcases List.mem_append.mp he with he | he
      · exact hsent e he
      · rw [List.mem_singleton.mp he]
        exact hp

end Written

/-! ## JSON texts -/

/-- The white space of JSON. -/
def isJsonSpace (b : UInt8) : Bool := b == 32 || b == 10 || b == 13 || b == 9

/-- A JSON text ends where its value ends: neither a part of it nor the text with anything but white
space behind it is read. -/
structure Platform.Delimits (P : Platform) : Prop where
  truncated : ∀ m json body, P.toVec m = .ok json → body <+: json → body ≠ json →
    ∃ e, P.fromSlice body = .error e
  trailing : ∀ m json t, P.toVec m = .ok json → (∃ b ∈ t, isJsonSpace b = false) →
    ∃ e, P.fromSlice (json ++ t) = .error e

theorem not_isJsonSpace_hexEncode (bs : List UInt8) :
    ∀ b ∈ utf8 (hexEncode bs), isJsonSpace b = false := by
  intro b hb
  obtain ⟨c, hc, hb⟩ := List.mem_flatMap.mp hb
  have hall := forall_hexEncode
    (p := fun c => (String.utf8EncodeChar c).all fun b => !isJsonSpace b) (by decide) bs c hc
  simpa using List.all_eq_true.mp hall b hb

section Truncated

variable {P : Platform} {m : WireMessage} {json : List UInt8}

theorem Platform.Delimits.fromSlice_take (hP : P.Delimits) (hm : P.toVec m = .ok json)
    {bs : List UInt8} (hbs : bs ≠ []) {k : ℕ} (hk : k ≠ json.length)
    (hle : k ≤ (json ++ utf8 (hexEncode bs)).length) :
    ∃ e, P.fromSlice ((json ++ utf8 (hexEncode bs)).take k) = .error e := by
  rcases lt_or_gt_of_ne hk with hlt | hgt
  · refine hP.truncated m json _ hm ?_ fun heq => ?_
    · rw [List.take_append_of_le_length hlt.le]
      exact List.take_prefix k json
    · have hlen := congrArg List.length heq
      rw [List.length_take_of_le hle] at hlen
      exact hk hlen
  · obtain ⟨i, rfl⟩ := Nat.exists_eq_add_of_lt hgt
    rw [Nat.add_assoc, List.take_length_add_append]
    cases hmac : utf8 (hexEncode bs) with
    | nil =>
      have hlen := length_utf8_hexEncode bs
      rw [hmac, List.length_nil] at hlen
      exact absurd (List.eq_nil_of_length_eq_zero (by omega)) hbs
    | cons b mac =>
      refine hP.trailing m json _ hm ⟨b, List.mem_cons_self, ?_⟩
      exact not_isJsonSpace_hexEncode bs b (hmac ▸ List.mem_cons_self)

theorem readMessage_authenticated (hlen : ∀ k d, (P.hmacSha256 k d).length = 32)
    (hP : P.Delimits) {key : String}
    (h : encodeAuthenticated P key m = .ok frame) (ending : Option IoError) :
    ∃ e, readMessage P ⟨frame, ending⟩ = .failed e := by
  cases hm : P.toVec m with
  | error e =>
    rw [encodeAuthenticated, hm] at h
    cases h
  | ok json =>
    rw [encodeAuthenticated_of_toVec hm] at h
    rw [← Except.ok.inj h, List.append_assoc]
    have hmac : (utf8 (hmacSign P key json)).length = 64 := by
      rw [hmacSign, length_utf8_hexEncode, hlen]
    have hsize : (json ++ utf8 (hmacSign P key json)).length = json.length + 64 := by
      rw [List.length_append, hmac]
    rw [hmac, readMessage, readLength_eq]
    by_cases hmax : (json.length + 64) % 2 ^ 32 > maxMessageSize
    · rw [if_pos hmax]
      exact ⟨_, rfl⟩
    · have hle : (json.length + 64) % 2 ^ 32 ≤ (json ++ utf8 (hmacSign P key json)).length := by
        rw [hsize]
        exact Nat.mod_le _ _
      have hne : (json.length + 64) % 2 ^ 32 ≠ json.length := by omega
      have hbs : P.hmacSha256 (utf8 key) json ≠ [] := by
        intro hnil
        have hlen32 := hlen (utf8 key) json
        rw [hnil] at hlen32
        cases hlen32
      obtain ⟨e, he⟩ := hP.fromSlice_take hm hbs hne hle
      rw [if_neg hmax]
      dsimp only
      rw [readExact, if_pos hle]
      dsimp only
      rw [decodeMessage, hmacSign, he]
      exact ⟨_, rfl⟩

end Truncated

/-! ## The receiver -/

/-- A node with a new inbound connection, and what the surroundings contribute: the handshake's
values, then the passes of the message loop. -/
structure Inbound where
  node : PeerNode
  address : String
  ackNonce : String
  localAgents : List RemoteAgentInfo
  writeError : Option IoError
  now : ℕ
  limiter : PeerRateLimiter
  turns : List Turn

section Receiver

variable (P : Platform) (x : Inbound)

/-- `handle_inbound` with what it reads first. -/
def Inbound.handshake (received : Except WireError WireMessage) :
    (Except WireError Session × List WireMessage) × PeerNode :=
  handleInbound P x.node x.address received x.ackNonce x.localAgents x.writeError x.now

/-- The message loop after a handshake, with what is left of the connection. -/
def Inbound.endpoint (session : Session) (rest : Stream) (registry : PeerRegistry) : Endpoint where
  reader := .loop
  peerNodeId := session.peerNodeId
  running := true
  inbound := rest
  accepted := []
  sent := []
  limiter := x.limiter
  registry := registry

/-- The loop's passes while it runs. -/
def Inbound.loop (session : Session) (rest : Stream) (registry : PeerRegistry) : Endpoint :=
  x.turns.foldl (fun e turn => if e.running then e.read P session.key turn else e)
    (x.endpoint session rest registry)

/-- The node shakes hands on the connection, and its loop accepts a message with the notification,
which `connection_loop` applies to the registry. -/
def Inbound.Applies (s : Stream) (notification : WireNotification) : Prop :=
  ∃ received rest session, readMessage P s = .got received rest ∧
    (x.handshake P (.ok received)).1.1 = .ok session ∧
    ∃ msg ∈ (x.loop P session rest (x.handshake P (.ok received)).2.registry).accepted,
      msg.kind = .notification notification

end Receiver

section Refused

variable {P : Platform} {notification : WireNotification} {sharedSecret : String}
  {registry : PeerRegistry} {attempt : PeerEntry → Attempt} {peer : PeerEntry}
  {frame : List UInt8}

/-- **What is broadcast is refused**: it is not readable as the first message of a connection, and
the node that gets it answers nothing and stays as it was. -/
theorem broadcast_refused (hlen : ∀ k d, (P.hmacSha256 k d).length = 32) (hP : P.Delimits)
    (h : (peer, frame) ∈ (broadcastNotification P notification sharedSecret registry attempt).1)
    (ending : Option IoError) (x : Inbound) :
    ∃ e, readMessage P ⟨frame, ending⟩ = .failed e ∧
      x.handshake P (.error e) = ((.error e, []), x.node) := by
  obtain ⟨e, he⟩ :=
    readMessage_authenticated hlen hP (notifyPeer_ok (notifyPeer_of_broadcast h)) ending
  exact ⟨e, he, rfl⟩

/-- **No notification that is broadcast is ever applied.** -/
theorem broadcast_never_applied (hlen : ∀ k d, (P.hmacSha256 k d).length = 32) (hP : P.Delimits)
    (h : (peer, frame) ∈ (broadcastNotification P notification sharedSecret registry attempt).1)
    (ending : Option IoError) (x : Inbound) : ¬ x.Applies P ⟨frame, ending⟩ notification := by
  rintro ⟨received, rest, session, hread, -⟩
  obtain ⟨e, he, -⟩ := broadcast_refused hlen hP h ending x
  rw [he] at hread
  cases hread

end Refused

/-! ### A node that shuts down -/

/-- The JSON form of the sample notification. -/
def shutdownJson : List UInt8 :=
  utf8 "\x7b\"id\":\"b-1\",\"type\":\"notification\",\"event\":\"shutting_down\"\x7d"

/-- The JSON form of the notification, the key made of its nonce, and its MAC under this key. -/
def shutdownPlatform : Platform where
  hmacSha256 _ data :=
    if data = utf8 nonceA then
      [234, 124, 197, 221, 102, 253, 173, 246, 104, 183, 121, 247, 202, 159, 100, 63, 212, 216, 139,
        115, 133, 44, 189, 181, 148, 213, 65, 11, 184, 121, 40, 39]
    else
      [141, 55, 124, 10, 191, 132, 84, 50, 149, 93, 95, 230, 19, 115, 206, 226, 98, 8, 134, 184,
        178, 11, 28, 64, 236, 8, 13, 2, 84, 79, 221, 109]
  toVec m :=
    if m = notificationMessage .shuttingDown "b-1" then .ok shutdownJson else .error "not a sample"
  fromSlice json :=
    if json = shutdownJson then .ok (notificationMessage .shuttingDown "b-1")
    else .error "not a sample"

theorem shutdownPlatform_length (k d : List UInt8) :
    (shutdownPlatform.hmacSha256 k d).length = 32 := by
  simp only [shutdownPlatform]
  split_ifs <;> rfl

theorem shutdownPlatform_delimits : shutdownPlatform.Delimits := by
  have hjson : ∀ m json, shutdownPlatform.toVec m = .ok json → json = shutdownJson := by
    intro m json h
    simp only [shutdownPlatform] at h
    split_ifs at h
    exact (Except.ok.inj h).symm
  have herror : ∀ body, body ≠ shutdownJson →
      ∃ e, shutdownPlatform.fromSlice body = .error e := by
    intro body hbody
    simp only [shutdownPlatform]
    rw [if_neg hbody]
    exact ⟨_, rfl⟩
  constructor
  · intro m json body hm _ hne
    rw [hjson m json hm] at hne
    exact herror body hne
  · rintro m json t hm ⟨b, hb, -⟩
    refine herror _ fun heq => ?_
    have hlen := congrArg List.length heq
    rw [hjson m json hm, List.length_append] at hlen
    have hpos := List.length_pos_of_mem hb
    omega

/-- The node that is notified. -/
def shutdownPeer : PeerEntry := ⟨"node-b", "node-b", "10.0.0.2:4200", [], .connected, 1⟩

/-- The connection to it is made and written to. -/
def shutdownAttempt : Attempt := ⟨"b-1", nonceA, none, none⟩

/-- The other end of the connection, whose node knows the sender. -/
def shutdownInbound : Inbound where
  node := { sampleNode "node-b" with
    registry := ⟨[⟨"node-a", "node-a", "10.0.0.1:4100", [], .connected, 1⟩]⟩ }
  address := "10.0.0.1:4100"
  ackNonce := nonceB
  localAgents := []
  writeError := none
  now := 0
  limiter := .new 60 none
  turns := [sampleTurn]

theorem exists_shutdownFrame : ∃ frame, (shutdownPeer, frame) ∈
    (broadcastNotification shutdownPlatform .shuttingDown "s3cret" ⟨[shutdownPeer]⟩
      fun _ => shutdownAttempt).1 := by
  have hvec : shutdownPlatform.toVec (notificationMessage .shuttingDown "b-1") =
      .ok shutdownJson := by
    unfold shutdownPlatform
    dsimp only
    rw [if_pos rfl]
  have hframe := @encodeAuthenticated_of_toVec shutdownPlatform
    (hmacSign shutdownPlatform "s3cret" (utf8 nonceA)) _ _ hvec
  obtain ⟨frame, hok⟩ : ∃ frame,
      notifyPeer shutdownPlatform .shuttingDown "s3cret" shutdownAttempt = .ok frame := by
    unfold notifyPeer shutdownAttempt
    dsimp only
    rw [hframe]
    exact ⟨_, rfl⟩
  refine ⟨frame, ?_⟩
  have hpeers : (⟨[shutdownPeer]⟩ : PeerRegistry).connectedPeers = [shutdownPeer] := rfl
  rw [broadcastNotification, hpeers, List.foldl_cons, List.foldl_nil, hok]
  exact List.mem_singleton.mpr rfl

/-- The notification is written and not applied. -/
theorem broadcast_never_applied_shutdown : ∃ frame, (shutdownPeer, frame) ∈
    (broadcastNotification shutdownPlatform .shuttingDown "s3cret" ⟨[shutdownPeer]⟩
      fun _ => shutdownAttempt).1 ∧
    ¬ shutdownInbound.Applies shutdownPlatform ⟨frame, some .unexpectedEof⟩ .shuttingDown := by
  obtain ⟨frame, hframe⟩ := exists_shutdownFrame
  exact ⟨frame, hframe, broadcast_never_applied shutdownPlatform_length shutdownPlatform_delimits
    hframe _ _⟩

/-- **A broadcast is not delivered**: a connected peer with the same secret refuses it. -/
theorem shutdown_not_applied :
    ¬∀ (P : Platform) (notification : WireNotification) (sharedSecret : String)
      (registry : PeerRegistry) (attempt : PeerEntry → Attempt) (peer : PeerEntry)
      (frame : List UInt8) (ending : Option IoError) (x : Inbound),
      (∀ k d, (P.hmacSha256 k d).length = 32) → P.Delimits →
      (peer, frame) ∈ (broadcastNotification P notification sharedSecret registry attempt).1 →
      x.node.config.sharedSecret = sharedSecret → x.turns ≠ [] →
      x.Applies P ⟨frame, ending⟩ notification := by
  intro hall
  obtain ⟨frame, hframe⟩ := exists_shutdownFrame
  obtain ⟨received, rest, -, hread, -⟩ := hall shutdownPlatform .shuttingDown "s3cret" _ _ _ frame
    (some .unexpectedEof) shutdownInbound shutdownPlatform_length shutdownPlatform_delimits hframe
    rfl (List.cons_ne_nil _ _)
  obtain ⟨e, he, -⟩ := broadcast_refused shutdownPlatform_length shutdownPlatform_delimits hframe
    (some .unexpectedEof) shutdownInbound
  rw [he] at hread
  cases hread

end LibreFang.Wire
