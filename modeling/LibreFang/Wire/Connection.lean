import LibreFang.Lib.Runs
import LibreFang.Wire.Peers

/-!
# An established connection

Two endpoints share a session key. The network between them may hand over any bytes.

* `handleRequestInLoop`, `handleNotification`: what a node does with a message.
* **`in_order_iff`**: each side accepts a prefix of what its peer sent exactly as long as the
  network hands over no copy of a frame out of turn.
* **`frame_accepted_twice`**: a repeated frame is handled again.
-/

namespace LibreFang.Wire

open Text Runs

/-! ## Handling messages -/

/-- `PeerHandle`: the answers of the kernel at one moment. -/
structure PeerHandle where
  localAgents : List RemoteAgentInfo
  handleAgentMessage : String → String → Option String → Except String String
  discoverAgents : String → List RemoteAgentInfo
  uptimeSecs : ℕ

/-- `MAX_PEER_MESSAGE_BYTES`. -/
def maxPeerMessageBytes : ℕ := 65536

/-- `handle_request_in_loop`: the response, and the limiter after it; `later` is the time when the
kernel has answered. -/
def handleRequestInLoop (msg : WireMessage) (handle : PeerHandle) (peerNodeId : String)
    (now later : ℕ) (limiter : PeerRateLimiter) : WireMessage × PeerRateLimiter :=
  match msg.kind with
  | .request .ping => ({ id := msg.id, kind := .response (.pong handle.uptimeSecs) }, limiter)
  | .request (.discover query) =>
    ({ id := msg.id, kind := .response (.discoverResult (handle.discoverAgents query)) }, limiter)
  | .request (.agentMessage agent message sender) =>
    match limiter.checkMessage now peerNodeId with
    | (.error rateErr, limiter) =>
      ({ id := msg.id, kind := .response (.error 429 rateErr) }, limiter)
    | (.ok (), limiter) =>
      if (utf8 message).length > maxPeerMessageBytes then
        ({ id := msg.id, kind := .response (.error 413 ("Message payload too large: " ++
          toString (utf8 message).length ++ " bytes (max " ++ toString maxPeerMessageBytes ++
          ")")) }, limiter)
      else
        match handle.handleAgentMessage agent message sender with
        | .ok text =>
          ({ id := msg.id, kind := .response (.agentResponse text) },
            (limiter.recordTokens later peerNodeId 0).2)
        | .error e => ({ id := msg.id, kind := .response (.error 500 e) }, limiter)
  | _ =>
    ({ id := msg.id, kind := .response (.error 400 "Unexpected request in connection loop") },
      limiter)

/-- `handle_notification`. -/
def handleNotification (peerNodeId : String) (notif : WireNotification) (registry : PeerRegistry) :
    PeerRegistry :=
  match notif with
  | .agentSpawned agent => registry.addAgent peerNodeId agent
  | .agentTerminated agentId => registry.removeAgent peerNodeId agentId
  | .shuttingDown => registry.markDisconnected peerNodeId

/-! ## Endpoints -/

/-- What reads at an endpoint: `connection_loop`, or `send_to_peer` waiting for its answer. -/
inductive Reader
  | loop
  | reply
  deriving DecidableEq, Repr

/-- One side of a connection, with the messages it accepted and those it sent. -/
structure Endpoint where
  reader : Reader
  peerNodeId : String
  running : Bool
  inbound : Stream
  accepted : List WireMessage
  sent : List WireMessage
  limiter : PeerRateLimiter
  registry : PeerRegistry

/-- What the surroundings contribute to one pass of a reader. -/
structure Turn where
  handle : PeerHandle
  now : ℕ
  later : ℕ
  writeOk : Bool

variable (P : Platform) (key : String)

/-- The end of the reader: the loop's caller marks the peer as disconnected. -/
def Endpoint.stop (e : Endpoint) : Endpoint :=
  match e.reader with
  | .loop =>
    { e with running := false, registry := e.registry.markDisconnected e.peerNodeId }
  | .reply => { e with running := false }

/-- `write_message_authenticated`; a write that fails ends the reader. -/
def Endpoint.write (e : Endpoint) (writeOk : Bool) (m : WireMessage) : Endpoint :=
  match encodeAuthenticated P key m with
  | .error _ => e.stop
  | .ok _ => if writeOk then { e with sent := e.sent ++ [m] } else e.stop

/-- What the loop does with a message it has read. -/
def Endpoint.dispatch (e : Endpoint) (turn : Turn) (msg : WireMessage) : Endpoint :=
  match msg.kind with
  | .notification notif =>
    { e with registry := handleNotification e.peerNodeId notif e.registry }
  | .request _ =>
    let answer := handleRequestInLoop msg turn.handle e.peerNodeId turn.now turn.later e.limiter
    Endpoint.write P key { e with limiter := answer.2 } turn.writeOk answer.1
  | .response _ => e

/-- One pass of the reader: of `connection_loop`, or the only one of `send_to_peer`. -/
def Endpoint.read (e : Endpoint) (turn : Turn) : Endpoint :=
  match readMessageAuthenticated P key e.inbound with
  | .pending => e
  | .failed _ => e.stop
  | .got msg rest =>
    let e := { e with inbound := rest, accepted := e.accepted ++ [msg] }
    match e.reader with
    | .loop => e.dispatch P key turn msg
    | .reply => e.stop

/-- The network hands over more bytes. -/
def Endpoint.receive (e : Endpoint) (bytes : List UInt8) : Endpoint :=
  { e with inbound := { e.inbound with buf := e.inbound.buf ++ bytes } }

/-- The two sides of a connection. -/
inductive Side
  | initiator
  | responder
  deriving DecidableEq, Repr

/-- The other side. -/
def Side.peer : Side → Side
  | .initiator => .responder
  | .responder => .initiator

/-- A move of a side or of the network. -/
inductive Event
  | send (x : Side) (m : WireMessage) (writeOk : Bool)
  | deliver (x : Side) (bytes : List UInt8)
  | close (x : Side) (error : IoError)
  | shared (x : Side) (limiter : PeerRateLimiter) (registry : PeerRegistry)
  | turn (x : Side) (turn : Turn)

/-- Both endpoints of a connection. -/
abbrev Connection := Side → Endpoint

/-- One move: a side sends on its own, the network hands over bytes or closes a direction, other
connections of a node change what they share, or a running reader makes one pass. -/
def step (w : Connection) : Event → Connection
  | .send x m writeOk => Function.update w x ((w x).write P key writeOk m)
  | .deliver x bytes => Function.update w x ((w x).receive bytes)
  | .close x error =>
    Function.update w x { w x with inbound := { (w x).inbound with ending := some error } }
  | .shared x limiter registry =>
    Function.update w x { w x with limiter := limiter, registry := registry }
  | .turn x turn => if (w x).running then Function.update w x ((w x).read P key turn) else w

/-! ## Unforgeable frames -/

/-- A message one of the sides sent under the session key has this JSON form. -/
def Signed (w : Connection) (json : List UInt8) : Prop :=
  ∃ y, ∃ m ∈ (w y).sent, P.toVec m = .ok json

/-- No forged MACs: an authentic frame that a running reader finds has a body that a side sent. -/
def Unforgeable (w : Connection) : Event → Prop
  | .turn x _ => (w x).running = true →
    ∀ json rest, Authentic P key (w x).inbound json rest → Signed P w json
  | _ => True

/-- No copy out of turn: an authentic copy of a frame that either side sent, found by a running
reader, is a copy of the frame its peer sent next after those accepted. -/
def InTurn (w : Connection) : Event → Prop
  | .turn x _ => (w x).running = true →
    ∀ json rest, Authentic P key (w x).inbound json rest → Signed P w json →
      ∃ m, (w x.peer).sent[(w x).accepted.length]? = some m ∧ P.toVec m = .ok json
  | _ => True

/-- Each side has accepted a prefix of what its peer sent. -/
def InOrder (w : Connection) : Prop := ∀ x, (w x).accepted <+: (w x.peer).sent

/-- Nothing sent, nothing accepted. -/
def Fresh (w : Connection) : Prop := ∀ x, (w x).accepted = [] ∧ (w x).sent = []

variable {w : Connection}

theorem Fresh.inOrder (h : Fresh w) : InOrder w := by
  intro x
  rw [(h x).1]
  exact List.nil_prefix

/-! ### What the operations leave alone -/

@[simp] theorem Endpoint.stop_accepted (e : Endpoint) : e.stop.accepted = e.accepted := by
  unfold Endpoint.stop
  split <;> rfl

@[simp] theorem Endpoint.stop_sent (e : Endpoint) : e.stop.sent = e.sent := by
  unfold Endpoint.stop
  split <;> rfl

theorem Endpoint.sent_prefix_stop (e : Endpoint) : e.sent <+: e.stop.sent :=
  ⟨[], by rw [e.stop_sent, List.append_nil]⟩

@[simp] theorem Endpoint.write_accepted (e : Endpoint) (ok : Bool) (m : WireMessage) :
    (e.write P key ok m).accepted = e.accepted := by
  unfold Endpoint.write
  split
  · exact e.stop_accepted
  · split_ifs
    · rfl
    · exact e.stop_accepted

theorem Endpoint.sent_prefix_write (e : Endpoint) (ok : Bool) (m : WireMessage) :
    e.sent <+: (e.write P key ok m).sent := by
  unfold Endpoint.write
  split
  · exact e.sent_prefix_stop
  · split_ifs
    · exact List.prefix_append _ _
    · exact e.sent_prefix_stop

@[simp] theorem Endpoint.dispatch_accepted (e : Endpoint) (turn : Turn) (msg : WireMessage) :
    (e.dispatch P key turn msg).accepted = e.accepted := by
  unfold Endpoint.dispatch
  split
  · rfl
  · exact Endpoint.write_accepted P key _ _ _
  · rfl

theorem Endpoint.sent_prefix_dispatch (e : Endpoint) (turn : Turn) (msg : WireMessage) :
    e.sent <+: (e.dispatch P key turn msg).sent := by
  unfold Endpoint.dispatch
  split
  · exact List.prefix_refl _
  · refine List.IsPrefix.trans ?_ (Endpoint.sent_prefix_write P key _ _ _)
    exact List.prefix_refl _
  · exact List.prefix_refl _

theorem Endpoint.sent_prefix_read (e : Endpoint) (turn : Turn) :
    e.sent <+: (e.read P key turn).sent := by
  unfold Endpoint.read
  split
  · exact List.prefix_refl _
  · exact e.sent_prefix_stop
  · dsimp only
    split
    · refine List.IsPrefix.trans ?_ (Endpoint.sent_prefix_dispatch P key _ _ _)
      exact List.prefix_refl _
    · refine List.IsPrefix.trans ?_ (Endpoint.sent_prefix_stop _)
      exact List.prefix_refl _

theorem Endpoint.read_accepted (e : Endpoint) (turn : Turn) {msg : WireMessage} {rest : Stream}
    (h : readMessageAuthenticated P key e.inbound = .got msg rest) :
    (e.read P key turn).accepted = e.accepted ++ [msg] := by
  unfold Endpoint.read
  rw [h]
  dsimp only
  split
  · rw [Endpoint.dispatch_accepted]
  · rw [Endpoint.stop_accepted]

theorem Endpoint.read_accepted_self (e : Endpoint) (turn : Turn)
    (h : ∀ msg rest, readMessageAuthenticated P key e.inbound ≠ .got msg rest) :
    (e.read P key turn).accepted = e.accepted := by
  unfold Endpoint.read
  split
  · rfl
  · exact e.stop_accepted
  · rename_i msg rest hgot
    exact absurd hgot (h msg rest)

/-! ## Messages in order -/

theorem Side.peer_ne (x : Side) : x.peer ≠ x := by
  cases x <;> decide

variable {P key} {e : Endpoint}

theorem inOrder_update_iff (h : InOrder w) {x : Side} (hsent : (w x).sent <+: e.sent) :
    InOrder (Function.update w x e) ↔ e.accepted <+: (w x.peer).sent := by
  constructor
  · intro hnew
    have := hnew x
    rwa [Function.update_self, Function.update_of_ne x.peer_ne] at this
  · intro hacc y
    by_cases hyx : y = x
    · subst hyx
      rwa [Function.update_self, Function.update_of_ne y.peer_ne]
    · have hy : y.peer = x := by
        cases x <;> cases y <;> first | rfl | exact absurd rfl hyx
      rw [Function.update_of_ne hyx, hy, Function.update_self]
      exact (hy ▸ h y).trans hsent

theorem inOrder_update (h : InOrder w) {x : Side}
    (hsent : (w x).sent <+: e.sent) (hacc : e.accepted = (w x).accepted) :
    InOrder (Function.update w x e) := by
  rw [inOrder_update_iff h hsent, hacc]
  exact h x

theorem concat_prefix_iff {l l' : List WireMessage} (h : l <+: l') (m : WireMessage) :
    l ++ [m] <+: l' ↔ l'[l.length]? = some m := by
  obtain ⟨t, rfl⟩ := h
  rw [List.prefix_append_right_inj, List.getElem?_append_right le_rfl, Nat.sub_self]
  cases t with
  | nil => simp
  | cons a t => simp [List.cons_prefix_cons, eq_comm]

theorem inOrder_turn_iff (hP : P.RoundTrips) (h : InOrder w) {x : Side}
    {turn : Turn} (hrun : (w x).running = true) (hsigned : Unforgeable P key w (.turn x turn)) :
    InOrder (Function.update w x ((w x).read P key turn)) ↔ InTurn P key w (.turn x turn) := by
  rw [inOrder_update_iff h ((w x).sent_prefix_read P key turn)]
  constructor
  · intro hacc _ json rest hauth _
    obtain ⟨y, m, -, hm⟩ := hsigned hrun json rest hauth
    have hgot := (readMessageAuthenticated_got P).mpr ⟨json, hauth, hP m json hm⟩
    rw [(w x).read_accepted P key turn hgot, concat_prefix_iff (h x)] at hacc
    exact ⟨m, hacc, hm⟩
  · intro hturn
    by_cases hgot : ∃ msg rest, readMessageAuthenticated P key (w x).inbound = .got msg rest
    · obtain ⟨msg, rest, hgot⟩ := hgot
      rw [(w x).read_accepted P key turn hgot, concat_prefix_iff (h x)]
      obtain ⟨json, hauth, hmsg⟩ := (readMessageAuthenticated_got P).mp hgot
      obtain ⟨m, hnext, hm⟩ := hturn hrun json rest hauth (hsigned hrun json rest hauth)
      have heq : Except.ok m = Except.ok msg := (hP m json hm).symm.trans hmsg
      rw [hnext, Except.ok.inj heq]
    · rw [(w x).read_accepted_self P key turn fun msg rest hgot' => hgot ⟨msg, rest, hgot'⟩]
      exact h x

/-- **A move keeps the order exactly when it hands over no copy out of turn.** -/
theorem inOrder_step_iff (hP : P.RoundTrips) {ev : Event} (h : InOrder w)
    (hsigned : Unforgeable P key w ev) : InOrder (step P key w ev) ↔ InTurn P key w ev := by
  cases ev with
  | send x m ok =>
    refine iff_of_true (inOrder_update h ?_ ?_) trivial
    · exact (w x).sent_prefix_write P key ok m
    · exact (w x).write_accepted P key ok m
  | deliver x bytes => exact iff_of_true (inOrder_update h (List.prefix_refl _) rfl) trivial
  | close x error => exact iff_of_true (inOrder_update h (List.prefix_refl _) rfl) trivial
  | shared x l r => exact iff_of_true (inOrder_update h (List.prefix_refl _) rfl) trivial
  | turn x turn =>
    by_cases hrun : (w x).running = true
    · rw [step, if_pos hrun]
      exact inOrder_turn_iff hP h hrun hsigned
    · rw [step, if_neg hrun]
      exact iff_of_true h fun hrun' => absurd hrun' hrun

/-- **The order holds in every state of a run exactly when no copy is out of turn.** -/
theorem in_order_iff (hP : P.RoundTrips) (hw : Fresh w) {es : List Event}
    (hsigned : Along (step P key) (Unforgeable P key) w es) :
    (∀ as bs, es = as ++ bs → InOrder (after (step P key) w as)) ↔
      Along (step P key) (InTurn P key) w es :=
  along_iff (fun _ _ => inOrder_step_iff hP) hw.inOrder hsigned

/-! ## A repeated frame -/

section Repeat

variable {m : WireMessage} {json frame : List UInt8} {w : Connection} {turn : Turn}

/-- The bytes are the frame of a message under the session key. -/
structure IsFrame (P : Platform) (key : String) (m : WireMessage) (json frame : List UInt8) :
    Prop where
  toVec : P.toVec m = .ok json
  authentic : Authentic P key ⟨frame, none⟩ json ⟨[], none⟩

theorem exists_isFrame (hlen : ∀ k d, (P.hmacSha256 k d).length = 32) (hm : P.toVec m = .ok json)
    (hjson : 2 ≤ json.length) (hmax : json.length + hmacHexLen ≤ maxMessageSize) :
    ∃ frame, IsFrame P key m json frame := by
  obtain ⟨frame, hframe⟩ : ∃ frame, encodeAuthenticated P key m = .ok frame := by
    rw [encodeAuthenticated, hm]
    exact ⟨_, rfl⟩
  have h := authentic_of_encode P hlen hm hframe hjson hmax [] none
  rw [List.append_nil] at h
  exact ⟨frame, hm, h⟩

/-- A loop that waits for a frame. -/
structure Waiting (e : Endpoint) : Prop where
  reader : e.reader = .loop
  running : e.running = true
  inbound : e.inbound = ⟨[], none⟩

/-- The network hands a frame to the responder, whose loop reads it. -/
def handOver (frame : List UInt8) (turn : Turn) : List Event :=
  [.deliver .responder frame, .turn .responder turn]

theorem IsFrame.read (h : IsFrame P key m json frame) (hP : P.RoundTrips)
    (hin : e.inbound = ⟨frame, none⟩) (hloop : e.reader = .loop) :
    e.read P key turn = ({ e with inbound := ⟨[], none⟩, accepted := e.accepted ++ [m] } :
      Endpoint).dispatch P key turn m := by
  have hgot := (readMessageAuthenticated_got P).mpr ⟨json, h.authentic, hP m json h.toVec⟩
  rw [Endpoint.read, hin, hgot]
  simp only [hloop]

theorem Waiting.receive (h : Waiting e) (frame : List UInt8) :
    (e.receive frame).inbound = ⟨frame, none⟩ := by
  rw [Endpoint.receive, h.inbound, List.nil_append]

variable (turn) in
theorem after_handOver (h : IsFrame P key m json frame) (hP : P.RoundTrips)
    (hw : Waiting (w .responder)) :
    after (step P key) w (handOver frame turn) .responder =
      ({ w .responder with accepted := (w .responder).accepted ++ [m] } :
        Endpoint).dispatch P key turn m := by
  have hread : after (step P key) w (handOver frame turn) .responder =
      ((w .responder).receive frame).read P key turn := by
    have hrun : ((w .responder).receive frame).running = true := hw.running
    simp only [handOver, after_cons, after_nil, step, Function.update_self, hrun, if_true]
  rw [hread, h.read hP (hw.receive frame) hw.reader, ← hw.inbound]
  rfl

theorem unforgeable_handOver (h : IsFrame P key m json frame) (hw : Waiting (w .responder))
    (hsent : m ∈ (w .initiator).sent) :
    Along (step P key) (Unforgeable P key) w (handOver frame turn) := by
  refine ⟨trivial, fun _ json' rest hauth => ?_, trivial⟩
  simp only [step, Function.update_self, hw.receive] at hauth
  have hgot := hauth.symm.trans h.authentic
  injection hgot with hpair
  obtain rfl := (Prod.mk.inj hpair).1
  exact ⟨.initiator, m, hsent, h.toVec⟩

theorem Endpoint.stop_inbound (e : Endpoint) :
    e.stop.inbound = e.inbound ∧ e.stop.reader = e.reader := by
  unfold Endpoint.stop
  split <;> exact ⟨rfl, rfl⟩

theorem Endpoint.write_inbound (e : Endpoint) (ok : Bool) :
    (e.write P key ok m).inbound = e.inbound ∧ (e.write P key ok m).reader = e.reader := by
  unfold Endpoint.write
  split
  · exact e.stop_inbound
  · split_ifs
    · exact ⟨rfl, rfl⟩
    · exact e.stop_inbound

theorem Endpoint.dispatch_inbound (e : Endpoint) :
    (e.dispatch P key turn m).inbound = e.inbound ∧
      (e.dispatch P key turn m).reader = e.reader := by
  unfold Endpoint.dispatch
  split
  · exact ⟨rfl, rfl⟩
  · exact Endpoint.write_inbound _ _
  · exact ⟨rfl, rfl⟩

theorem Waiting.dispatch (h : Waiting e)
    (hrun : (e.dispatch P key turn m).running = true) : Waiting (e.dispatch P key turn m) where
  reader := e.dispatch_inbound.2.trans h.reader
  running := hrun
  inbound := e.dispatch_inbound.1.trans h.inbound

theorem after_handOver_initiator :
    after (step P key) w (handOver frame turn) .initiator = w .initiator := by
  simp only [handOver, after_cons, after_nil, step]
  split_ifs <;> rfl

variable (turn) in
/-- **A frame handed over twice is accepted twice.** -/
theorem repeated_frame (h : IsFrame P key m json frame) (hP : P.RoundTrips)
    (hw : Waiting (w .responder)) (hsent : m ∈ (w .initiator).sent)
    (hrun : (({ w .responder with accepted := (w .responder).accepted ++ [m] } :
      Endpoint).dispatch P key turn m).running = true) :
    let es := handOver frame turn ++ handOver frame turn
    Along (step P key) (Unforgeable P key) w es ∧
      (after (step P key) w es .responder).accepted = (w .responder).accepted ++ [m] ++ [m] ∧
      after (step P key) w es .initiator = w .initiator := by
  have hfirst := after_handOver turn h hP hw
  have hw' : Waiting (after (step P key) w (handOver frame turn) .responder) := by
    rw [hfirst]
    exact Waiting.dispatch ⟨hw.reader, hw.running, hw.inbound⟩ hrun
  have hsent' : m ∈ (after (step P key) w (handOver frame turn) .initiator).sent := by
    rwa [after_handOver_initiator]
  refine ⟨?_, ?_, ?_⟩
  · exact along_append (step P key) |>.mpr
      ⟨unforgeable_handOver h hw hsent, unforgeable_handOver h hw' hsent'⟩
  · rw [after_append, after_handOver turn h hP hw', Endpoint.dispatch_accepted, hfirst,
      Endpoint.dispatch_accepted]
  · rw [after_append, after_handOver_initiator, after_handOver_initiator]

end Repeat

/-! ### A sample connection -/

/-- The session key of the sample connection. -/
def sampleKey : String := "927f371ccbb5ab44f4aa2bfa4ab154169d36fc8d823423ce18d027ff214b3e71"

/-- A message to an agent. -/
def sampleRequest : WireMessage where
  id := "m-1"
  kind := .request (.agentMessage "coder" "hi" none)

/-- Its answer. -/
def sampleResponse : WireMessage where
  id := "m-1"
  kind := .response (.agentResponse "done")

/-- The JSON form of the message. -/
def sampleRequestJson : List UInt8 :=
  utf8 ("\x7b\"id\":\"m-1\",\"type\":\"request\",\"method\":\"agent_message\"," ++
    "\"agent\":\"coder\",\"message\":\"hi\",\"sender\":null\x7d")

/-- The JSON form of the answer. -/
def sampleResponseJson : List UInt8 :=
  utf8 ("\x7b\"id\":\"m-1\",\"type\":\"response\",\"method\":\"agent_response\"," ++
    "\"text\":\"done\"\x7d")

/-- The two messages with their JSON forms and MACs under the session key. -/
def samplePlatform : Platform where
  hmacSha256 k data :=
    if k = utf8 sampleKey ∧ data = sampleRequestJson then
      [121, 173, 250, 183, 137, 140, 218, 188, 130, 34, 209, 151, 180, 77, 92, 89, 173, 142, 241,
        176, 12, 51, 97, 222, 246, 47, 209, 235, 242, 181, 235, 88]
    else if k = utf8 sampleKey ∧ data = sampleResponseJson then
      [49, 16, 66, 138, 207, 121, 81, 111, 28, 49, 111, 88, 59, 104, 134, 130, 27, 167, 4, 25, 231,
        18, 26, 57, 192, 103, 245, 1, 33, 118, 89, 197]
    else List.replicate 32 0
  toVec m :=
    if m = sampleRequest then .ok sampleRequestJson
    else if m = sampleResponse then .ok sampleResponseJson
    else .error "not a sample"
  fromSlice json :=
    if json = sampleRequestJson then .ok sampleRequest
    else if json = sampleResponseJson then .ok sampleResponse
    else .error "not a sample"

theorem samplePlatform_roundTrips : samplePlatform.RoundTrips := by
  intro m json h
  simp only [samplePlatform] at h ⊢
  split_ifs at h with hreq hresp
  · cases h
    rw [hreq, if_pos rfl]
  · cases h
    rw [hresp, if_neg (by decide +kernel), if_pos rfl]

theorem samplePlatform_length (k d : List UInt8) : (samplePlatform.hmacSha256 k d).length = 32 := by
  simp only [samplePlatform]
  split_ifs <;> rfl

theorem exists_sampleFrame :
    ∃ frame, IsFrame samplePlatform sampleKey sampleRequest sampleRequestJson frame :=
  exists_isFrame samplePlatform_length rfl (by decide +kernel) (by decide +kernel)

/-- An endpoint after the handshake. -/
def sampleEndpoint (reader : Reader) (peerNodeId : String) : Endpoint where
  reader
  peerNodeId
  running := true
  inbound := ⟨[], none⟩
  accepted := []
  sent := []
  limiter := .new 60 none
  registry := ⟨[]⟩

/-- A connection of `send_to_peer` after the handshake. -/
def sampleConnection : Connection
  | .initiator => sampleEndpoint .reply "node-b"
  | .responder => sampleEndpoint .loop "node-a"

/-- A kernel with one agent. -/
def sampleTurn : Turn where
  handle := ⟨[], fun _ _ _ => .ok "done", fun _ => [], 0⟩
  now := 0
  later := 0
  writeOk := true

theorem sampleConnection_fresh : Fresh sampleConnection := by
  intro x
  cases x <;> exact ⟨rfl, rfl⟩

/-- The message is sent and its frame handed over once. -/
theorem in_order_iff_sample :
    ∃ frame, IsFrame samplePlatform sampleKey sampleRequest sampleRequestJson frame ∧
      ((∀ as bs, .send .initiator sampleRequest true :: handOver frame sampleTurn = as ++ bs →
        InOrder (after (step samplePlatform sampleKey) sampleConnection as)) ↔
        Along (step samplePlatform sampleKey) (InTurn samplePlatform sampleKey) sampleConnection
          (.send .initiator sampleRequest true :: handOver frame sampleTurn)) := by
  obtain ⟨frame, hframe⟩ := exists_sampleFrame
  refine ⟨frame, hframe, in_order_iff samplePlatform_roundTrips sampleConnection_fresh ?_⟩
  exact ⟨trivial, unforgeable_handOver hframe ⟨rfl, rfl, rfl⟩ List.mem_cons_self⟩

/-- **A repeated frame is handled again**: the message to the agent is accepted twice. -/
theorem frame_accepted_twice :
    ¬∀ (P : Platform) (key : String) (w : Connection) (es : List Event), P.RoundTrips → Fresh w →
      Along (step P key) (Unforgeable P key) w es → InOrder (after (step P key) w es) := by
  intro hall
  obtain ⟨frame, hframe⟩ := exists_sampleFrame
  obtain ⟨hsigned, hresp, hinit⟩ := repeated_frame sampleTurn
    (w := step samplePlatform sampleKey sampleConnection (.send .initiator sampleRequest true))
    hframe samplePlatform_roundTrips ⟨rfl, rfl, rfl⟩ List.mem_cons_self rfl
  have hord := hall samplePlatform sampleKey sampleConnection
    (.send .initiator sampleRequest true :: (handOver frame sampleTurn ++ handOver frame sampleTurn))
    samplePlatform_roundTrips sampleConnection_fresh ⟨trivial, hsigned⟩ .responder
  rw [after_cons, hresp] at hord
  have hlen := hord.length_le
  rw [Side.peer, hinit] at hlen
  exact absurd hlen (by decide)

end LibreFang.Wire
