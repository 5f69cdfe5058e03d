import LibreFang.Lib.Text

/-!
# Wire messages

The messages of the wire protocol and their frames on a connection.

* `WireMessage`: an envelope around a request, a response or a notification.
* `Platform`: the functions of other crates; `hmacSign`, `hmacVerify`, `deriveSessionKey`.
* `Stream`: the reading side of a connection; `readMessage`, `readMessageAuthenticated` take one
  frame from it.
* **`readMessageAuthenticated_ok`**: what is accepted carries a valid MAC of its body.
-/

namespace LibreFang.Wire

open Text

/-! ## Messages -/

/-- `RemoteAgentInfo`. -/
structure RemoteAgentInfo where
  id : String
  name : String
  description : String
  tags : List String
  tools : List String
  state : String
  deriving DecidableEq, Repr

/-- `WireRequest`. -/
inductive WireRequest
  | handshake (nodeId nodeName : String) (protocolVersion : ℕ) (agents : List RemoteAgentInfo)
      (nonce authHmac : String)
  | discover (query : String)
  | agentMessage (agent message : String) (sender : Option String)
  | ping
  deriving DecidableEq, Repr

/-- `WireResponse`. -/
inductive WireResponse
  | handshakeAck (nodeId nodeName : String) (protocolVersion : ℕ) (agents : List RemoteAgentInfo)
      (nonce authHmac : String)
  | discoverResult (agents : List RemoteAgentInfo)
  | agentResponse (text : String)
  | pong (uptimeSecs : ℕ)
  | error (code : ℤ) (message : String)
  deriving DecidableEq, Repr

/-- `WireNotification`. -/
inductive WireNotification
  | agentSpawned (agent : RemoteAgentInfo)
  | agentTerminated (agentId : String)
  | shuttingDown
  deriving DecidableEq, Repr

/-- `WireMessageKind`. -/
inductive WireMessageKind
  | request (request : WireRequest)
  | response (response : WireResponse)
  | notification (notification : WireNotification)
  deriving DecidableEq, Repr

/-- `WireMessage`. -/
structure WireMessage where
  id : String
  kind : WireMessageKind
  deriving DecidableEq, Repr

/-- `PROTOCOL_VERSION`. -/
def protocolVersion : ℕ := 1

/-- `MAX_MESSAGE_SIZE`. -/
def maxMessageSize : ℕ := 16 * 1024 * 1024

/-- What can end a read or a write of the connection. -/
inductive IoError
  | unexpectedEof
  | other (text : String)
  deriving DecidableEq, Repr

/-- `WireError`. -/
inductive WireError
  | io (error : IoError)
  | json (error : String)
  | handshakeFailed (reason : String)
  | connectionClosed
  | messageTooLarge (size max : ℕ)
  | versionMismatch (localVersion remoteVersion : ℕ)
  deriving DecidableEq, Repr

/-- HMAC-SHA256 of a key and a text, and the JSON form of a message. -/
structure Platform where
  hmacSha256 : List UInt8 → List UInt8 → List UInt8
  toVec : WireMessage → Except String (List UInt8)
  fromSlice : List UInt8 → Except String WireMessage

/-- The JSON form of a message reads back as the message. -/
def Platform.RoundTrips (P : Platform) : Prop :=
  ∀ m json, P.toVec m = .ok json → P.fromSlice json = .ok m

variable (P : Platform)

/-- `hmac_sign`. -/
def hmacSign (secret : String) (data : List UInt8) : String :=
  hexEncode (P.hmacSha256 (utf8 secret) data)

/-- `hmac_verify`. -/
def hmacVerify (secret : String) (data : List UInt8) (signature : String) : Bool :=
  utf8 (hmacSign P secret data) == utf8 signature

theorem hmacVerify_iff {secret signature : String} {data : List UInt8} :
    hmacVerify P secret data signature = true ↔ signature = hmacSign P secret data := by
  rw [hmacVerify, beq_iff_eq]
  exact ⟨fun h => (utf8_injective h).symm, fun h => by rw [h]⟩

/-- `derive_session_key`. -/
def deriveSessionKey (sharedSecret ourNonce theirNonce : String) : String :=
  hmacSign P sharedSecret (utf8 (ourNonce ++ theirNonce))

/-- `u32::to_be_bytes`, after the cast to `u32`. -/
def toBeBytes (n : ℕ) : List UInt8 :=
  [UInt8.ofNat (n / 2 ^ 24), UInt8.ofNat (n / 2 ^ 16), UInt8.ofNat (n / 2 ^ 8), UInt8.ofNat n]

/-- `encode_message`: what `write_message` writes. -/
def encodeMessage (m : WireMessage) : Except WireError (List UInt8) :=
  match P.toVec m with
  | .error e => .error (.json e)
  | .ok json => .ok (toBeBytes json.length ++ json)

/-- What `write_message_authenticated` writes. -/
def encodeAuthenticated (sessionKey : String) (m : WireMessage) : Except WireError (List UInt8) :=
  match P.toVec m with
  | .error e => .error (.json e)
  | .ok json =>
    let macBytes := utf8 (hmacSign P sessionKey json)
    .ok (toBeBytes (json.length + macBytes.length) ++ json ++ macBytes)

/-! ## Reading frames -/

/-- What a reader has been sent and not read yet, and how the connection ended if it did. -/
structure Stream where
  buf : List UInt8
  ending : Option IoError
  deriving DecidableEq, Repr

/-- A read: more bytes are awaited, the read failed, or it took a value from the stream. -/
inductive Read (α : Type)
  | pending
  | failed (error : WireError)
  | got (value : α) (rest : Stream)

/-- `read_exact`. -/
def readExact (n : ℕ) (s : Stream) : Read (List UInt8) :=
  if n ≤ s.buf.length then .got (s.buf.take n) { s with buf := s.buf.drop n }
  else
    match s.ending with
    | none => .pending
    | some e => .failed (.io e)

/-- `decode_length`. -/
def decodeLength (header : List UInt8) : ℕ := header.foldl (fun acc b => 256 * acc + b.toNat) 0

/-- The length header that both readers read first. -/
def readLength (s : Stream) : Read ℕ :=
  match readExact 4 s with
  | .pending => .pending
  | .failed (.io .unexpectedEof) => .failed .connectionClosed
  | .failed e => .failed e
  | .got header rest =>
    let len := decodeLength header
    if len > maxMessageSize then .failed (.messageTooLarge len maxMessageSize) else .got len rest

/-- `decode_message` on the body of a frame. -/
def decodeMessage (body : List UInt8) (rest : Stream) : Read WireMessage :=
  match P.fromSlice body with
  | .error e => .failed (.json e)
  | .ok m => .got m rest

/-- `read_message`. -/
def readMessage (s : Stream) : Read WireMessage :=
  match readLength s with
  | .pending => .pending
  | .failed e => .failed e
  | .got len s =>
    match readExact len s with
    | .pending => .pending
    | .failed e => .failed e
    | .got body rest => decodeMessage P body rest

/-- `HMAC_HEX_LEN`. -/
def hmacHexLen : ℕ := 64

/-- The body and the MAC bytes of the first authenticated frame, before anything is verified. -/
def readFrame (s : Stream) : Read (List UInt8 × List UInt8) :=
  match readLength s with
  | .pending => .pending
  | .failed e => .failed e
  | .got len s =>
    if len < hmacHexLen + 2 then
      .failed (.handshakeFailed "Message too short for authenticated frame")
    else
      match readExact len s with
      | .pending => .pending
      | .failed e => .failed e
      | .got frame rest =>
        .got (frame.take (len - hmacHexLen), frame.drop (len - hmacHexLen)) rest

/-- The verification of a frame that was read, and the message in it. -/
def openFrame (sessionKey : String) (json macBytes : List UInt8) (rest : Stream) :
    Read WireMessage :=
  match fromUtf8? macBytes with
  | none => .failed (.handshakeFailed "Invalid HMAC encoding")
  | some receivedMac =>
    if hmacVerify P sessionKey json receivedMac then decodeMessage P json rest
    else .failed (.handshakeFailed
      "Per-message HMAC verification failed — message tampered or forged")

/-- `read_message_authenticated`. -/
def readMessageAuthenticated (sessionKey : String) (s : Stream) : Read WireMessage :=
  match readFrame s with
  | .pending => .pending
  | .failed e => .failed e
  | .got (json, macBytes) rest => openFrame P sessionKey json macBytes rest

/-! ### Reading what was written -/

theorem decodeLength_toBeBytes {n : ℕ} (h : n < 2 ^ 32) : decodeLength (toBeBytes n) = n := by
  simp only [decodeLength, toBeBytes, List.foldl_cons, List.foldl_nil, UInt8.toNat_ofNat']
  omega

theorem readExact_append (xs ys : List UInt8) (ending : Option IoError) :
    readExact xs.length ⟨xs ++ ys, ending⟩ = .got xs ⟨ys, ending⟩ := by
  have hle : xs.length ≤ (xs ++ ys).length := by
    rw [List.length_append]
    omega
  rw [readExact, if_pos hle, List.take_left, List.drop_left]

theorem readLength_append {n : ℕ} (h : n ≤ maxMessageSize) (ys : List UInt8)
    (ending : Option IoError) : readLength ⟨toBeBytes n ++ ys, ending⟩ = .got n ⟨ys, ending⟩ := by
  have hlt : n < 2 ^ 32 := lt_of_le_of_lt h (by decide)
  have hhead : readExact 4 ⟨toBeBytes n ++ ys, ending⟩ = .got (toBeBytes n) ⟨ys, ending⟩ :=
    readExact_append (toBeBytes n) ys ending
  rw [readLength, hhead]
  simp only [decodeLength_toBeBytes hlt]
  rw [if_neg (by omega)]

theorem readFrame_append {json macBytes : List UInt8} (hmac : macBytes.length = hmacHexLen)
    (hjson : 2 ≤ json.length) (hmax : json.length + hmacHexLen ≤ maxMessageSize)
    (more : List UInt8) (ending : Option IoError) :
    readFrame ⟨toBeBytes (json.length + macBytes.length) ++ json ++ macBytes ++ more, ending⟩ =
      .got (json, macBytes) ⟨more, ending⟩ := by
  have hbody := readExact_append (json ++ macBytes) more ending
  rw [List.length_append, hmac] at hbody
  rw [readFrame, hmac, List.append_assoc, List.append_assoc, ← List.append_assoc json,
    readLength_append hmax]
  simp only [hbody]
  rw [if_neg (by omega), Nat.add_sub_cancel, List.take_left, List.drop_left]

/-- The first frame of the stream has a valid MAC of this body. -/
def Authentic (sessionKey : String) (s : Stream) (json : List UInt8) (rest : Stream) : Prop :=
  readFrame s = .got (json, utf8 (hmacSign P sessionKey json)) rest

variable {m : WireMessage} {sessionKey : String}

theorem authentic_of_encode {json frame : List UInt8}
    (hlen : ∀ k d, (P.hmacSha256 k d).length = 32) (hm : P.toVec m = .ok json)
    (hframe : encodeAuthenticated P sessionKey m = .ok frame) (hjson : 2 ≤ json.length)
    (hmax : json.length + hmacHexLen ≤ maxMessageSize) (more : List UInt8)
    (ending : Option IoError) :
    Authentic P sessionKey ⟨frame ++ more, ending⟩ json ⟨more, ending⟩ := by
  have hmac : (utf8 (hmacSign P sessionKey json)).length = hmacHexLen := by
    rw [hmacSign, length_utf8_hexEncode, hlen]
    rfl
  rw [encodeAuthenticated, hm] at hframe
  rw [← Except.ok.inj hframe]
  exact readFrame_append hmac hjson hmax more ending

theorem decodeMessage_got {json : List UInt8} {rest rest' : Stream} :
    decodeMessage P json rest = .got m rest' ↔ P.fromSlice json = .ok m ∧ rest = rest' := by
  unfold decodeMessage
  cases P.fromSlice json with
  | error e => simp
  | ok m' => simp

theorem openFrame_got {json macBytes : List UInt8} {rest rest' : Stream} :
    openFrame P sessionKey json macBytes rest = .got m rest' ↔
      macBytes = utf8 (hmacSign P sessionKey json) ∧ P.fromSlice json = .ok m ∧ rest = rest' := by
  unfold openFrame
  split
  · rename_i hnone
    have hne : macBytes ≠ utf8 (hmacSign P sessionKey json) := fun hmac => by
      rw [fromUtf8?_eq_some.mpr hmac.symm] at hnone
      cases hnone
    simp [hne]
  · rename_i receivedMac hsome
    obtain rfl := fromUtf8?_eq_some.mp hsome
    by_cases hv : hmacVerify P sessionKey json receivedMac
    · rw [if_pos hv, decodeMessage_got, (hmacVerify_iff P).mp hv, eq_self, true_and]
    · have hne : utf8 receivedMac ≠ utf8 (hmacSign P sessionKey json) := fun hmac =>
        hv ((hmacVerify_iff P).mpr (utf8_injective hmac))
      simp [hv, hne]

theorem readMessageAuthenticated_got {s rest : Stream} :
    readMessageAuthenticated P sessionKey s = .got m rest ↔
      ∃ json, Authentic P sessionKey s json rest ∧ P.fromSlice json = .ok m := by
  unfold readMessageAuthenticated Authentic
  split
  · rename_i hframe
    simp [hframe]
  · rename_i e hframe
    simp [hframe]
  · rename_i json macBytes rest' hframe
    rw [openFrame_got]
    constructor
    · rintro ⟨rfl, hm, rfl⟩
      exact ⟨json, hframe, hm⟩
    · rintro ⟨json', hauth, hm⟩
      rw [hframe] at hauth
      cases hauth
      exact ⟨rfl, hm, rfl⟩

end LibreFang.Wire
