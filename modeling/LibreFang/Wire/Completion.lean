import LibreFang.Wire.Broadcast
import LibreFang.Wire.Handshake
import LibreFang.Wire.Nonces

/-!
# Handshakes of honest nodes

Two nodes with one secret shake hands over a network that hands over what they write.

* `EntryPoint`: how a handshake is started, and the recipient its MAC is made for.
* `deliver`: a message that is written and read; `deliver_iff`: it arrives exactly if it `Fits`.
* **`exchange_completes_iff`**: a handshake completes exactly when it names the responder, both
  messages fit, and both trackers admit the nonce they get.
-/

namespace LibreFang.Wire

open Text

/-! ## Starting a handshake -/

/-- How a handshake is started; `sendToPeer` after it found the peer in the registry. -/
inductive EntryPoint
  | connectToPeer
  | connectToPeerWithId (recipientNodeId : String)
  | sendToPeer (nodeId : String)
  deriving DecidableEq, Repr

/-- The recipient in the text under the MAC. `connect_to_peer` has none. -/
def EntryPoint.recipient : EntryPoint → String
  | .connectToPeer => ""
  | .connectToPeerWithId recipientNodeId => recipientNodeId
  | .sendToPeer nodeId => nodeId

/-- What the connection is opened for. -/
def EntryPoint.purpose : EntryPoint → Purpose
  | .connectToPeer | .connectToPeerWithId _ => .connect
  | .sendToPeer _ => .send

/-- What `read_message` makes of what `write_message` has put on a connection where nothing else was
written. A message without a JSON form is not written, and the connection is closed. -/
def deliver (P : Platform) (m : WireMessage) : Except WireError WireMessage :=
  match encodeMessage P m with
  | .error _ => .error .connectionClosed
  | .ok frame =>
    match readMessage P ⟨frame, none⟩ with
    | .got m _ => .ok m
    | .failed e => .error e
    | .pending => .error .connectionClosed

/-- A handshake of two nodes: how it is started, what the two sides generate, and when they read. -/
structure Exchange where
  entry : EntryPoint
  initiator : PeerNode
  responder : PeerNode
  id : String
  ourNonce : String
  ackNonce : String
  initiatorAgents : List RemoteAgentInfo
  responderAgents : List RemoteAgentInfo
  initiatorAddress : String
  responderAddress : String
  inboundTime : ℕ
  ackTime : ℕ
  deriving DecidableEq, Repr

section Exchange

variable (P : Platform) (x : Exchange)

/-- What the initiator writes. -/
def Exchange.request : WireMessage :=
  handshakeRequest P x.initiator.config x.id x.ourNonce x.entry.recipient x.initiatorAgents

/-- What the responder makes of it. -/
def Exchange.inbound : (Except WireError Session × List WireMessage) × PeerNode :=
  handleInbound P x.responder x.initiatorAddress (deliver P (x.request P)) x.ackNonce
    x.responderAgents none x.inboundTime

/-- What the initiator reads: the first message the responder writes. -/
def Exchange.answer : Except WireError WireMessage :=
  match (x.inbound P).1.2 with
  | [] => .error .connectionClosed
  | msg :: _ => deliver P msg

/-- What the initiator makes of it, if it could write. -/
def Exchange.outcome : Except WireError Session × PeerNode :=
  match encodeMessage P (x.request P) with
  | .error e => (.error e, x.initiator)
  | .ok _ =>
    acceptAck P x.entry.purpose.record x.initiator x.responderAddress x.ourNonce (x.answer P)
      x.ackTime

/-- Both sides accept, and derive the same key. -/
def Exchange.Completes : Prop :=
  ∃ s s', (x.inbound P).1.1 = .ok s ∧ (x.outcome P).1 = .ok s' ∧ s.key = s'.key

end Exchange

/-! ## When a message arrives -/

section Deliver

variable {P : Platform} {m m' : WireMessage}

/-- A message has a JSON form within the limit of the reader. -/
def Fits (P : Platform) (m : WireMessage) : Prop :=
  ∃ json, P.toVec m = .ok json ∧ json.length ≤ maxMessageSize

theorem readMessage_ne_got (hends : P.Delimits) {json : List UInt8} (hm : P.toVec m = .ok json)
    (hlong : ¬ json.length ≤ maxMessageSize) (rest : Stream) :
    readMessage P ⟨toBeBytes json.length ++ json, none⟩ ≠ .got m' rest := by
  unfold readMessage
  rw [readLength_eq]
  by_cases hmax : json.length % 2 ^ 32 > maxMessageSize
  · rw [if_pos hmax]
    exact fun h => by cases h
  · have hle : json.length % 2 ^ 32 ≤ json.length := Nat.mod_le _ _
    rw [if_neg hmax]
    dsimp only [readExact]
    rw [if_pos hle]
    obtain ⟨e, he⟩ := hends.truncated m json (json.take (json.length % 2 ^ 32)) hm
      (List.take_prefix _ _) fun heq => by
        have hlength := congrArg List.length heq
        rw [List.length_take_of_le hle] at hlength
        omega
    dsimp only [decodeMessage]
    rw [he]
    exact fun h => by cases h

/-- **A message arrives exactly if it fits**, and as it was sent. -/
theorem deliver_iff (hP : P.RoundTrips) (hends : P.Delimits) :
    deliver P m = .ok m' ↔ m' = m ∧ Fits P m := by
  unfold deliver Fits
  cases hm : P.toVec m with
  | error e =>
    rw [encodeMessage, hm]
    refine iff_of_false (fun h => by cases h) ?_
    rintro ⟨-, json, hjson, -⟩
    cases hjson
  | ok json =>
    rw [encodeMessage_of_toVec hm]
    dsimp only
    by_cases hfits : json.length ≤ maxMessageSize
    · have hread := (encodeMessage_readsBack_iff hP hm).mpr hfits _ (encodeMessage_of_toVec hm) []
        none
      rw [List.append_nil] at hread
      rw [hread]
      constructor
      · intro h
        exact ⟨(Except.ok.inj h).symm, json, rfl, hfits⟩
      · rintro ⟨rfl, -⟩
        rfl
    · refine iff_of_false (fun h => ?_) ?_
      · cases hread : readMessage P ⟨toBeBytes json.length ++ json, none⟩ with
        | got m'' rest => exact readMessage_ne_got hends hm hfits rest hread
        | failed e =>
          rw [hread] at h
          cases h
        | pending =>
          rw [hread] at h
          cases h
      · rintro ⟨-, json', hjson, hle⟩
        exact hfits (Except.ok.inj hjson ▸ hle)

end Deliver

/-! ## When the sides accept -/

section Accept

variable {P : Platform} {n : PeerNode} {address id nodeId nodeName ourNonce nonce tag : String}
  {agents : List RemoteAgentInfo} {now : ℕ}

/-- The ack of a responder. -/
def handshakeAck (P : Platform) (c : PeerConfig) (id ackNonce nodeId : String)
    (localAgents : List RemoteAgentInfo) : WireMessage where
  id
  kind := .response (.handshakeAck c.nodeId c.nodeName protocolVersion localAgents ackNonce
    (hmacSign P c.sharedSecret (authData ackNonce c.nodeId nodeId)))

theorem handleInbound_of_mac {ackNonce : String} {localAgents : List RemoteAgentInfo}
    (htag : tag = hmacSign P n.config.sharedSecret (authData nonce nodeId n.config.nodeId)) :
    (handleInbound P n address (.ok ⟨id, .request (.handshake nodeId nodeName protocolVersion
      agents nonce tag)⟩) ackNonce localAgents none now).1 =
      match (n.nonceTracker.checkAndRecord now nonce).1 with
      | .error replayErr =>
        refuse id 403 "Nonce replay rejected" (.handshakeFailed replayErr) none
      | .ok () =>
        (.ok ⟨nodeId, nonce, ackNonce, deriveSessionKey P n.config.sharedSecret nonce ackNonce⟩,
          [handshakeAck P n.config id ackNonce nodeId localAgents]) := by
  have hmac := (hmacVerify_iff P).mpr htag
  unfold handleInbound
  dsimp only
  rw [if_neg (not_not.mpr rfl), hmac, if_neg (by decide)]
  rcases n.nonceTracker.checkAndRecord now nonce with ⟨_ | _, tracker⟩ <;> rfl

theorem handleInbound_handshake_iff {ackNonce : String} {localAgents : List RemoteAgentInfo} :
    (∃ s, (handleInbound P n address (.ok ⟨id, .request (.handshake nodeId nodeName protocolVersion
      agents nonce tag)⟩) ackNonce localAgents none now).1.1 = .ok s) ↔
      tag = hmacSign P n.config.sharedSecret (authData nonce nodeId n.config.nodeId) ∧
        n.nonceTracker.Admits now nonce := by
  rw [← checkAndRecord_ok_iff]
  constructor
  · rintro ⟨s, hok⟩
    obtain ⟨_, _, _, _, _, _, hrec, -⟩ := handleInbound_ok hok
    obtain ⟨rfl, hkind⟩ := WireMessage.mk.inj (Except.ok.inj hrec)
    obtain ⟨rfl, rfl, -, rfl, rfl, rfl⟩ :=
      WireRequest.handshake.inj (WireMessageKind.request.inj hkind)
    refine ⟨rfl, ?_⟩
    rw [handleInbound_of_mac rfl] at hok
    cases hnew : (n.nonceTracker.checkAndRecord now nonce).1 with
    | error replayErr =>
      rw [hnew] at hok
      exact absurd hok refuse_ne_ok
    | ok _ => rfl
  · rintro ⟨rfl, hnew⟩
    exact ⟨_, handleInbound_of_valid hnew⟩

theorem acceptAck_handshakeAck_iff {record : PeerRegistry → PeerEntry → PeerRegistry} :
    (∃ s, (acceptAck P record n address ourNonce (.ok ⟨id, .response (.handshakeAck nodeId nodeName
      protocolVersion agents nonce tag)⟩) now).1 = .ok s) ↔
      tag = hmacSign P n.config.sharedSecret (authData nonce nodeId n.config.nodeId) ∧
        n.nonceTracker.Admits now nonce := by
  rw [← checkAndRecord_ok_iff]
  constructor
  · rintro ⟨s, hok⟩
    obtain ⟨_, _, _, _, _, _, hrec, -⟩ := acceptAck_ok hok
    obtain ⟨rfl, hkind⟩ := WireMessage.mk.inj (Except.ok.inj hrec)
    obtain ⟨rfl, rfl, -, rfl, rfl, rfl⟩ :=
      WireResponse.handshakeAck.inj (WireMessageKind.response.inj hkind)
    refine ⟨rfl, ?_⟩
    have hmac := (hmacVerify_iff P).mpr
      (rfl : hmacSign P n.config.sharedSecret (authData nonce nodeId n.config.nodeId) = _)
    unfold acceptAck at hok
    dsimp only at hok
    rw [if_neg (not_not.mpr rfl), hmac, if_neg (by decide)] at hok
    rcases hnew : n.nonceTracker.checkAndRecord now nonce with ⟨_ | _, tracker⟩
    · rw [hnew] at hok
      cases hok
    · rfl
  · rintro ⟨rfl, hnew⟩
    exact ⟨_, acceptAck_of_valid hnew⟩

end Accept

/-! ## A whole handshake -/

section Completes

variable {P : Platform} {x : Exchange}

/-- The two signed texts have different MACs unless they are the same. -/
def CollisionFree (P : Platform) (secret : String) (data data' : List UInt8) : Prop :=
  hmacSign P secret data = hmacSign P secret data' → data = data'

theorem authData_recipient_iff {nonce sender recipient recipient' : String} :
    authData nonce sender recipient = authData nonce sender recipient' ↔ recipient = recipient' := by
  constructor
  · intro h
    have := congrArg String.toList (utf8_injective h)
    simp only [String.toList_append] at this
    exact String.toList_inj.mp (List.append_cancel_left this)
  · rintro rfl
    rfl

/-- The ack of the responder. -/
def Exchange.ack (P : Platform) (x : Exchange) : WireMessage :=
  handshakeAck P x.responder.config x.id x.ackNonce x.initiator.config.nodeId x.responderAgents

theorem Exchange.inbound_of_accepted (hdelivered : deliver P (x.request P) = .ok (x.request P))
    (htag : hmacSign P x.initiator.config.sharedSecret
      (authData x.ourNonce x.initiator.config.nodeId x.entry.recipient) =
      hmacSign P x.responder.config.sharedSecret
        (authData x.ourNonce x.initiator.config.nodeId x.responder.config.nodeId))
    (hadmits : x.responder.nonceTracker.Admits x.inboundTime x.ourNonce) :
    (x.inbound P).1 = (.ok ⟨x.initiator.config.nodeId, x.ourNonce, x.ackNonce,
      deriveSessionKey P x.responder.config.sharedSecret x.ourNonce x.ackNonce⟩, [x.ack P]) := by
  unfold Exchange.inbound
  rw [hdelivered]
  unfold Exchange.request handshakeRequest
  rw [handleInbound_of_mac htag, checkAndRecord_ok_iff.mpr hadmits]
  rfl

theorem Exchange.delivered_of_inbound {s : Session} (h : (x.inbound P).1.1 = .ok s) :
    ∃ m, deliver P (x.request P) = .ok m := by
  unfold Exchange.inbound at h
  cases hdelivered : deliver P (x.request P) with
  | error e =>
    rw [hdelivered] at h
    cases h
  | ok m => exact ⟨m, rfl⟩

theorem Exchange.outcome_of_fits (h : Fits P (x.request P)) :
    x.outcome P = acceptAck P x.entry.purpose.record x.initiator x.responderAddress x.ourNonce
      (x.answer P) x.ackTime := by
  obtain ⟨json, hjson, -⟩ := h
  rw [Exchange.outcome, encodeMessage_of_toVec hjson]

/-- **A handshake of honest nodes completes exactly when** it is made for the responder, its two
messages fit, and each side's tracker admits the nonce of the other. -/
theorem exchange_completes_iff (hP : P.RoundTrips) (hends : P.Delimits)
    (hsecret : x.initiator.config.sharedSecret = x.responder.config.sharedSecret)
    (hfree : CollisionFree P x.responder.config.sharedSecret
      (authData x.ourNonce x.initiator.config.nodeId x.entry.recipient)
      (authData x.ourNonce x.initiator.config.nodeId x.responder.config.nodeId)) :
    x.Completes P ↔ x.entry.recipient = x.responder.config.nodeId ∧
      Fits P (x.request P) ∧ Fits P (x.ack P) ∧
      x.responder.nonceTracker.Admits x.inboundTime x.ourNonce ∧
      x.initiator.nonceTracker.Admits x.ackTime x.ackNonce := by
  constructor
  · rintro ⟨s, s', hs, hs', -⟩
    obtain ⟨m, hdelivered⟩ := Exchange.delivered_of_inbound hs
    obtain ⟨rfl, hfits⟩ := (deliver_iff hP hends).mp hdelivered
    have haccepted := hs
    rw [Exchange.inbound, hdelivered] at haccepted
    obtain ⟨htag, hadmits⟩ := handleInbound_handshake_iff.mp ⟨s, haccepted⟩
    rw [Exchange.outcome_of_fits hfits, Exchange.answer,
      Exchange.inbound_of_accepted hdelivered htag hadmits] at hs'
    dsimp only at hs'
    cases hack : deliver P (x.ack P) with
    | error e =>
      rw [hack] at hs'
      cases hs'
    | ok ack =>
      obtain ⟨rfl, hfits'⟩ := (deliver_iff hP hends).mp hack
      rw [hack] at hs'
      rw [hsecret] at htag
      exact ⟨authData_recipient_iff.mp (hfree htag), hfits, hfits', hadmits,
        (acceptAck_handshakeAck_iff.mp ⟨s', hs'⟩).2⟩
  · rintro ⟨hrecipient, hfits, hfits', hadmits, hadmits'⟩
    have hinbound := Exchange.inbound_of_accepted ((deliver_iff hP hends).mpr ⟨rfl, hfits⟩)
      (by rw [hrecipient, hsecret]) hadmits
    have houtcome : (x.outcome P).1 = .ok ⟨x.responder.config.nodeId, x.ourNonce, x.ackNonce,
        deriveSessionKey P x.initiator.config.sharedSecret x.ourNonce x.ackNonce⟩ := by
      rw [Exchange.outcome_of_fits hfits, Exchange.answer, hinbound]
      dsimp only
      rw [(deliver_iff hP hends).mpr ⟨rfl, hfits'⟩, Exchange.ack, handshakeAck, ← hsecret]
      exact acceptAck_of_valid (checkAndRecord_ok_iff.mpr hadmits')
    refine ⟨_, _, congrArg Prod.fst hinbound, houtcome, ?_⟩
    rw [hsecret]

end Completes

/-! ### A bootstrap connection -/

/-- The MACs of the sample platform, with that of a handshake made for no recipient. -/
def bootstrapMacs : Platform where
  hmacSha256 k data :=
    if data = authData nonceA "node-a" "" then
      [0x58, 0x26, 0xfe, 0xe2, 0xa5, 0x76, 0xdf, 0x1f, 0xed, 0xcb, 0x94, 0x7c, 0x06, 0xcc, 0x68,
        0x58, 0x83, 0xf4, 0x17, 0x99, 0xc3, 0xaf, 0x60, 0x70, 0xad, 0x42, 0x5a, 0x88, 0xdf, 0x63,
        0xf9, 0xb5]
    else handshakePlatform.hmacSha256 k data
  toVec := handshakePlatform.toVec
  fromSlice := handshakePlatform.fromSlice

/-- The messages of the two nodes: requests for the second node and for no recipient, and what they
are answered with. -/
def sampleMessages : List WireMessage :=
  [handshakeRequest bootstrapMacs (sampleNode "node-a").config "h-1" nonceA "node-b" [],
    handshakeRequest bootstrapMacs (sampleNode "node-a").config "h-1" nonceA "" [],
    handshakeAck bootstrapMacs (sampleNode "node-b").config "h-1" nonceB "node-a" [],
    ⟨"h-1", .response (.error 403 "HMAC authentication failed")⟩]

/-- The JSON text of a handshake message without agents, behind its id, in pieces. -/
def handshakePieces (method nodeId nodeName nonce authHmac : String) : List String :=
  [method, "\",\"node_id\":\"", nodeId, "\",\"node_name\":\"", nodeName,
    "\",\"protocol_version\":1,\"agents\":[],\"nonce\":\"", nonce, "\",\"auth_hmac\":\"", authHmac,
    "\"\x7d"]

/-- The JSON texts of these messages, in pieces. -/
def samplePieces (m : WireMessage) : List String :=
  "\x7b\"id\":\"" :: m.id :: "\",\"type\":\"" :: match m.kind with
    | .request (.handshake nodeId nodeName _ _ nonce authHmac) =>
      handshakePieces "request\",\"method\":\"handshake" nodeId nodeName nonce authHmac
    | .response (.handshakeAck nodeId nodeName _ _ nonce authHmac) =>
      handshakePieces "response\",\"method\":\"handshake_ack" nodeId nodeName nonce authHmac
    | .response (.error code message) => ["response\",\"method\":\"error\",\"code\":",
      toString code, ",\"message\":\"", message, "\"\x7d"]
    | _ => []

/-- The JSON forms of these messages. -/
def sampleJson (m : WireMessage) : List UInt8 := (samplePieces m).flatMap utf8

/-- The sample platform with the four messages. -/
def bootstrapPlatform : Platform where
  hmacSha256 := bootstrapMacs.hmacSha256
  toVec m := if m ∈ sampleMessages then .ok (sampleJson m) else .error "not a sample"
  fromSlice json :=
    match sampleMessages.find? (sampleJson · == json) with
    | some m => .ok m
    | none => .error "not a sample"

theorem sampleJson_spec : ∀ m ∈ sampleMessages, (sampleJson m).length ≤ maxMessageSize ∧
    ∀ m' ∈ sampleMessages, sampleJson m' <+: sampleJson m → m' = m := by decide +kernel

theorem toVec_bootstrap {m : WireMessage} {json : List UInt8}
    (h : bootstrapPlatform.toVec m = .ok json) : m ∈ sampleMessages ∧ json = sampleJson m := by
  simp only [bootstrapPlatform] at h
  split_ifs at h with hm
  exact ⟨hm, (Except.ok.inj h).symm⟩

theorem fromSlice_bootstrap {json : List UInt8} (h : ∀ m ∈ sampleMessages, sampleJson m ≠ json) :
    bootstrapPlatform.fromSlice json = .error "not a sample" := by
  have hnone : sampleMessages.find? (sampleJson · == json) = none :=
    List.find?_eq_none.mpr fun m hm heq => h m hm (eq_of_beq heq)
  simp only [bootstrapPlatform, hnone]

theorem bootstrapPlatform_roundTrips : bootstrapPlatform.RoundTrips := by
  intro m json h
  obtain ⟨hm, rfl⟩ := toVec_bootstrap h
  cases hfind : sampleMessages.find? (sampleJson · == sampleJson m) with
  | none =>
    have hne := List.find?_eq_none.mp hfind m hm
    exact absurd (beq_self_eq_true (sampleJson m)) hne
  | some m' =>
    have hbeq := List.find?_some hfind
    have heq : sampleJson m' = sampleJson m := eq_of_beq hbeq
    have hm' := List.mem_of_find?_eq_some hfind
    simp only [bootstrapPlatform, hfind]
    rw [(sampleJson_spec m hm).2 m' hm' (by rw [heq])]

theorem bootstrapPlatform_delimits : bootstrapPlatform.Delimits where
  truncated m json body h hbody hne := by
    obtain ⟨hm, rfl⟩ := toVec_bootstrap h
    refine ⟨_, fromSlice_bootstrap fun m' hm' heq => hne ?_⟩
    rw [← heq] at hbody
    rw [← heq, (sampleJson_spec m hm).2 m' hm' hbody]
  trailing m json t h ht := by
    obtain ⟨hm, rfl⟩ := toVec_bootstrap h
    obtain ⟨b, hb, -⟩ := ht
    refine ⟨_, fromSlice_bootstrap fun m' hm' heq => ?_⟩
    have hprefix : sampleJson m <+: sampleJson m' := by
      rw [heq]
      exact List.prefix_append _ _
    rw [(sampleJson_spec m' hm').2 m hm hprefix] at heq
    exact List.ne_nil_of_mem hb (List.self_eq_append_right.mp heq)

theorem fits_bootstrap {m : WireMessage} (hm : m ∈ sampleMessages) : Fits bootstrapPlatform m :=
  ⟨sampleJson m, if_pos hm, (sampleJson_spec m hm).1⟩

/-- A handshake of two new nodes. -/
def sampleExchange (entry : EntryPoint) : Exchange where
  entry
  initiator := sampleNode "node-a"
  responder := sampleNode "node-b"
  id := "h-1"
  ourNonce := nonceA
  ackNonce := nonceB
  initiatorAgents := []
  responderAgents := []
  initiatorAddress := "10.0.0.1:4100"
  responderAddress := "10.0.0.2:4200"
  inboundTime := 0
  ackTime := 0

theorem admits_sampleNode (nodeId nonce : String) :
    (sampleNode nodeId).nonceTracker.Admits 0 nonce := by
  have hswept : (sampleNode nodeId).nonceTracker.swept 0 = [] := by
    unfold NonceTracker.swept
    split_ifs <;> rfl
  unfold NonceTracker.Admits
  rw [hswept]
  exact ⟨Nat.succ_pos 99999, fun e he => absurd he List.not_mem_nil⟩

theorem bootstrap_mac_ne : hmacSign bootstrapPlatform "s3cret" (authData nonceA "node-a" "") ≠
    hmacSign bootstrapPlatform "s3cret" (authData nonceA "node-a" "node-b") := by decide +kernel

theorem hmacSign_bootstrap (secret : String) (data : List UInt8) :
    hmacSign bootstrapPlatform secret data = hmacSign bootstrapMacs secret data := by
  simp only [hmacSign, bootstrapPlatform]

theorem request_sample (entry : EntryPoint) :
    (sampleExchange entry).request bootstrapPlatform = handshakeRequest bootstrapMacs
      (sampleNode "node-a").config "h-1" nonceA entry.recipient [] := by
  simp only [Exchange.request, handshakeRequest, hmacSign_bootstrap, sampleExchange]

theorem ack_sample (entry : EntryPoint) :
    (sampleExchange entry).ack bootstrapPlatform = handshakeAck bootstrapMacs
      (sampleNode "node-b").config "h-1" nonceB "node-a" [] := by
  simp only [Exchange.ack, handshakeAck, hmacSign_bootstrap, sampleExchange]
  rfl

theorem fits_request :
    Fits bootstrapPlatform ((sampleExchange (.sendToPeer "node-b")).request bootstrapPlatform) :=
  request_sample _ ▸ fits_bootstrap List.mem_cons_self

theorem fits_bootstrapRequest :
    Fits bootstrapPlatform ((sampleExchange .connectToPeer).request bootstrapPlatform) :=
  request_sample _ ▸ fits_bootstrap (List.mem_cons_of_mem _ List.mem_cons_self)

theorem fits_ack (entry : EntryPoint) :
    Fits bootstrapPlatform ((sampleExchange entry).ack bootstrapPlatform) :=
  ack_sample entry ▸
    fits_bootstrap (List.mem_cons_of_mem _ (List.mem_cons_of_mem _ List.mem_cons_self))

/-- The second node is reached by its id, and not by a handshake made for no recipient. -/
theorem exchange_completes_iff_sample :
    (sampleExchange (.sendToPeer "node-b")).Completes bootstrapPlatform ∧
      ¬ (sampleExchange .connectToPeer).Completes bootstrapPlatform := by
  constructor
  · exact (exchange_completes_iff bootstrapPlatform_roundTrips bootstrapPlatform_delimits rfl
      fun _ => authData_recipient_iff.mpr rfl).mpr ⟨rfl, fits_request, fits_ack _,
        admits_sampleNode "node-b" nonceA, admits_sampleNode "node-a" nonceB⟩
  · intro h
    have hfree : CollisionFree bootstrapPlatform "s3cret" (authData nonceA "node-a" "")
        (authData nonceA "node-a" "node-b") := fun hmac => absurd hmac bootstrap_mac_ne
    have hrecipient := ((@exchange_completes_iff bootstrapPlatform (sampleExchange .connectToPeer)
      bootstrapPlatform_roundTrips bootstrapPlatform_delimits rfl hfree).mp h).1
    exact absurd hrecipient (by decide)

/-- **A bootstrap handshake is refused**: its MAC is made for no recipient, and the responder
expects one made for itself. -/
theorem bootstrap_not_completes :
    ¬∀ (P : Platform) (x : Exchange), P.RoundTrips → P.Delimits →
      x.initiator.config.sharedSecret = x.responder.config.sharedSecret →
      x.initiator.config.nodeId ≠ x.responder.config.nodeId →
      x.entry ∈ [.connectToPeer, .connectToPeerWithId x.responder.config.nodeId,
        .sendToPeer x.responder.config.nodeId] →
      Fits P (x.request P) → Fits P (x.ack P) →
      x.responder.nonceTracker.Admits x.inboundTime x.ourNonce →
      x.initiator.nonceTracker.Admits x.ackTime x.ackNonce → x.Completes P := by
  intro hall
  obtain ⟨s, -, hs, -⟩ := hall bootstrapPlatform (sampleExchange .connectToPeer)
    bootstrapPlatform_roundTrips bootstrapPlatform_delimits rfl (by decide) List.mem_cons_self
    fits_bootstrapRequest (fits_ack _) (admits_sampleNode "node-b" nonceA)
    (admits_sampleNode "node-a" nonceB)
  rw [Exchange.inbound, (deliver_iff bootstrapPlatform_roundTrips bootstrapPlatform_delimits).mpr
    ⟨rfl, fits_bootstrapRequest⟩] at hs
  have htag : hmacSign bootstrapPlatform "s3cret" (authData nonceA "node-a" "") =
      hmacSign bootstrapPlatform "s3cret" (authData nonceA "node-a" "node-b") :=
    (handleInbound_handshake_iff.mp ⟨s, hs⟩).1
  exact bootstrap_mac_ne htag

end LibreFang.Wire
