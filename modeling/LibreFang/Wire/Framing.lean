import LibreFang.Wire.Connection

/-!
# What is written is read back

* `ReadsBack`: a reader takes from the connection exactly what the writer put there.
* **`readsBack_iff`**: a message is read back exactly if its frame is within the limits of the
  reader, which the writer does not check.
-/

namespace LibreFang.Wire

open Text

/-! ## The length of a frame -/

theorem decodeLength_mod (n : ℕ) : decodeLength (toBeBytes n) = n % 2 ^ 32 := by
  simp only [decodeLength, toBeBytes, List.foldl_cons, List.foldl_nil, UInt8.toNat_ofNat']
  omega

theorem readLength_eq (n : ℕ) (ys : List UInt8) (ending : Option IoError) :
    readLength ⟨toBeBytes n ++ ys, ending⟩ =
      if n % 2 ^ 32 > maxMessageSize then .failed (.messageTooLarge (n % 2 ^ 32) maxMessageSize)
      else .got (n % 2 ^ 32) ⟨ys, ending⟩ := by
  have hhead : readExact 4 ⟨toBeBytes n ++ ys, ending⟩ = .got (toBeBytes n) ⟨ys, ending⟩ :=
    readExact_append (toBeBytes n) ys ending
  rw [readLength, hhead]
  simp only [decodeLength_mod]

theorem readExact_got {n : ℕ} {s rest : Stream} {xs : List UInt8}
    (h : readExact n s = .got xs rest) : s.buf.length = n + rest.buf.length := by
  unfold readExact at h
  split_ifs at h with hn
  · cases h
    dsimp only
    rw [List.length_drop]
    omega
  · split at h
    · cases h
    · cases h

/-! ## Reading back -/

/-- The reader takes the message, and nothing else, from what the writer put on the connection. -/
def ReadsBack (written : Except WireError (List UInt8)) (read : Stream → Read WireMessage)
    (m : WireMessage) : Prop :=
  ∀ frame, written = .ok frame → ∀ more ending, read ⟨frame ++ more, ending⟩ = .got m ⟨more, ending⟩

section ReadsBack

variable {P : Platform} {key : String} {m : WireMessage} {json : List UInt8}

theorem readsBack_of_error {written : Except WireError (List UInt8)}
    {read : Stream → Read WireMessage} {e : WireError} (h : written = .error e) :
    ReadsBack written read m := by
  intro frame hframe
  rw [h] at hframe
  cases hframe

theorem length_of_readMessage {n : ℕ} {ys : List UInt8} {ending : Option IoError} {rest : Stream}
    (h : readMessage P ⟨toBeBytes n ++ ys, ending⟩ = .got m rest) :
    n % 2 ^ 32 ≤ maxMessageSize ∧ ys.length = n % 2 ^ 32 + rest.buf.length := by
  unfold readMessage at h
  rw [readLength_eq] at h
  by_cases hmax : n % 2 ^ 32 > maxMessageSize
  · rw [if_pos hmax] at h
    cases h
  · rw [if_neg hmax] at h
    dsimp only at h
    split at h
    · cases h
    · cases h
    · rename_i body rest' hbody
      obtain ⟨-, rfl⟩ := (decodeMessage_got P).mp h
      exact ⟨not_lt.mp hmax, readExact_got hbody⟩

theorem length_of_readMessageAuthenticated {n : ℕ} {ys : List UInt8} {ending : Option IoError}
    {rest : Stream} (h : readMessageAuthenticated P key ⟨toBeBytes n ++ ys, ending⟩ = .got m rest) :
    n % 2 ^ 32 ≤ maxMessageSize ∧ hmacHexLen + 2 ≤ n % 2 ^ 32 ∧
      ys.length = n % 2 ^ 32 + rest.buf.length := by
  obtain ⟨json, hauth, -⟩ := (readMessageAuthenticated_got P).mp h
  unfold Authentic readFrame at hauth
  rw [readLength_eq] at hauth
  by_cases hmax : n % 2 ^ 32 > maxMessageSize
  · rw [if_pos hmax] at hauth
    cases hauth
  · rw [if_neg hmax] at hauth
    dsimp only at hauth
    by_cases hmin : n % 2 ^ 32 < hmacHexLen + 2
    · rw [if_pos hmin] at hauth
      cases hauth
    · rw [if_neg hmin] at hauth
      split at hauth
      · cases hauth
      · cases hauth
      · rename_i frame rest' hframe
        have hlen := readExact_got hframe
        injection hauth with _ hrest
        rw [← hrest]
        exact ⟨not_lt.mp hmax, not_lt.mp hmin, hlen⟩

theorem encodeMessage_of_toVec (hm : P.toVec m = .ok json) :
    encodeMessage P m = .ok (toBeBytes json.length ++ json) := by
  rw [encodeMessage, hm]

theorem encodeAuthenticated_of_toVec (hm : P.toVec m = .ok json) :
    encodeAuthenticated P key m = .ok (toBeBytes (json.length +
      (utf8 (hmacSign P key json)).length) ++ json ++ utf8 (hmacSign P key json)) := by
  rw [encodeAuthenticated, hm]

theorem le_maxMessageSize_of_mod {n : ℕ} (hmax : n % 2 ^ 32 ≤ maxMessageSize)
    (hn : n = n % 2 ^ 32) : n ≤ maxMessageSize := by
  rw [hn]
  exact hmax

/-- **A plain frame is read back** exactly if its body is within the limit. -/
theorem encodeMessage_readsBack_iff (hP : P.RoundTrips) (hm : P.toVec m = .ok json) :
    ReadsBack (encodeMessage P m) (readMessage P) m ↔ json.length ≤ maxMessageSize := by
  rw [encodeMessage_of_toVec hm]
  constructor
  · intro h
    have hread := h _ rfl [] none
    rw [List.append_assoc] at hread
    obtain ⟨hmax, hlen⟩ := length_of_readMessage hread
    rw [List.append_nil, List.length_nil, Nat.add_zero] at hlen
    exact le_maxMessageSize_of_mod hmax hlen
  · rintro hmax frame hframe more ending
    obtain rfl := Except.ok.inj hframe
    rw [readMessage, List.append_assoc, readLength_append hmax]
    dsimp only
    rw [readExact_append]
    exact (decodeMessage_got P).mpr ⟨hP m json hm, rfl⟩

/-- **An authenticated frame is read back** exactly if its body and its MAC are within the limits. -/
theorem encodeAuthenticated_readsBack_iff (hlen : ∀ k d, (P.hmacSha256 k d).length = 32)
    (hP : P.RoundTrips) (hm : P.toVec m = .ok json) :
    ReadsBack (encodeAuthenticated P key m) (readMessageAuthenticated P key) m ↔
      2 ≤ json.length ∧ json.length + hmacHexLen ≤ maxMessageSize := by
  have hmac : (utf8 (hmacSign P key json)).length = hmacHexLen := by
    rw [hmacSign, length_utf8_hexEncode, hlen]
    rfl
  constructor
  · intro h
    have hread := h _ (encodeAuthenticated_of_toVec hm) [] none
    rw [hmac, List.append_assoc, List.append_assoc] at hread
    obtain ⟨hmax, hmin, hlength⟩ := length_of_readMessageAuthenticated hread
    rw [List.append_nil, List.length_append, hmac, List.length_nil, Nat.add_zero] at hlength
    rw [← hlength] at hmin
    exact ⟨by omega, le_maxMessageSize_of_mod hmax hlength⟩
  · rintro ⟨hmin, hmax⟩ frame hframe more ending
    have hauth := authentic_of_encode P hlen hm hframe hmin hmax more ending
    exact (readMessageAuthenticated_got P).mpr ⟨json, hauth, hP m json hm⟩

/-- **A message is read back exactly if its frame is within the limits of the reader.** -/
theorem readsBack_iff (hlen : ∀ k d, (P.hmacSha256 k d).length = 32) (hP : P.RoundTrips)
    (key : String) (m : WireMessage) :
    (ReadsBack (encodeAuthenticated P key m) (readMessageAuthenticated P key) m ↔
      ∀ json, P.toVec m = .ok json → 2 ≤ json.length ∧ json.length + hmacHexLen ≤ maxMessageSize) ∧
    (ReadsBack (encodeMessage P m) (readMessage P) m ↔
      ∀ json, P.toVec m = .ok json → json.length ≤ maxMessageSize) := by
  cases hm : P.toVec m with
  | error e =>
    have hplain : encodeMessage P m = .error (.json e) := by rw [encodeMessage, hm]
    have hauth : encodeAuthenticated P key m = .error (.json e) := by rw [encodeAuthenticated, hm]
    constructor
    · refine iff_of_true (readsBack_of_error hauth) fun json hjson => ?_
      cases hjson
    · refine iff_of_true (readsBack_of_error hplain) fun json hjson => ?_
      cases hjson
  | ok json =>
    have hall : ∀ p : List UInt8 → Prop,
        (∀ json', (.ok json : Except String (List UInt8)) = .ok json' → p json') ↔ p json := by
      intro p
      constructor
      · exact fun h => h json rfl
      · rintro h json' hjson'
        rwa [← Except.ok.inj hjson']
    rw [hall, hall]
    exact ⟨encodeAuthenticated_readsBack_iff hlen hP hm, encodeMessage_readsBack_iff hP hm⟩

end ReadsBack

/-! ### A message beyond the limit -/

/-- A text of 16 MiB. -/
def longText : List Char := List.replicate (16 * 1024 * 1024) 'a'

/-- A message to an agent, of 16 MiB. -/
def longRequest : WireMessage where
  id := "m-2"
  kind := .request (.agentMessage "coder" (String.ofList longText) none)

/-- Its JSON form. -/
def longRequestJson : List UInt8 :=
  utf8 ("\x7b\"id\":\"m-2\",\"type\":\"request\",\"method\":\"agent_message\"," ++
    "\"agent\":\"coder\",\"message\":\"") ++ List.replicate (16 * 1024 * 1024) 97 ++
    utf8 "\",\"sender\":null\x7d"

/-- The long message and a short one, with their JSON forms and MACs under the session key. -/
def longPlatform : Platform where
  hmacSha256 k data :=
    if k = utf8 sampleKey ∧ data = longRequestJson then
      [244, 64, 249, 250, 27, 206, 253, 43, 43, 181, 112, 186, 126, 41, 52, 30, 105, 142, 189, 247,
        51, 152, 216, 135, 41, 222, 136, 251, 201, 37, 190, 29]
    else samplePlatform.hmacSha256 k data
  toVec m := if m = longRequest then .ok longRequestJson else samplePlatform.toVec m
  fromSlice json :=
    if json = longRequestJson then .ok longRequest else samplePlatform.fromSlice json

theorem longPlatform_length (k d : List UInt8) : (longPlatform.hmacSha256 k d).length = 32 := by
  simp only [longPlatform]
  split_ifs
  · rfl
  · exact samplePlatform_length k d

theorem length_longRequestJson : maxMessageSize < longRequestJson.length := by
  unfold longRequestJson maxMessageSize
  rw [List.length_append, List.length_append, List.length_replicate]
  have hpos : 0 < (utf8 "\",\"sender\":null\x7d").length := by decide +kernel
  omega

theorem ne_longRequestJson {json : List UInt8} (h : json.length ≤ maxMessageSize) :
    json ≠ longRequestJson := by
  rintro rfl
  exact absurd length_longRequestJson (not_lt.mpr h)

theorem longPlatform_roundTrips : longPlatform.RoundTrips := by
  intro m json h
  simp only [longPlatform] at h ⊢
  split_ifs at h with hlong
  · cases h
    rw [if_pos rfl, hlong]
  · have hshort : json.length ≤ maxMessageSize := by
      simp only [samplePlatform] at h
      split_ifs at h
      · cases h
        decide +kernel
      · cases h
        decide +kernel
    rw [if_neg (ne_longRequestJson hshort)]
    exact samplePlatform_roundTrips m json h

theorem longPlatform_toVec : longPlatform.toVec longRequest = .ok longRequestJson := by
  unfold longPlatform
  dsimp only
  rw [if_pos (Eq.refl longRequest)]

/-- A short message is read back, a long one is not. -/
theorem readsBack_iff_sample :
    ReadsBack (encodeMessage samplePlatform sampleRequest) (readMessage samplePlatform)
      sampleRequest ∧
    ¬ ReadsBack (encodeMessage longPlatform longRequest) (readMessage longPlatform)
      longRequest := by
  constructor
  · refine (readsBack_iff samplePlatform_length samplePlatform_roundTrips sampleKey
      sampleRequest).2.mpr fun json hjson => ?_
    cases hjson
    decide +kernel
  · intro h
    have hle := (readsBack_iff longPlatform_length longPlatform_roundTrips sampleKey
      longRequest).2.mp h longRequestJson longPlatform_toVec
    exact absurd length_longRequestJson (not_lt.mpr hle)

/-- **A long message is written, and not read**: the reader refuses its length. -/
theorem longRequest_not_readsBack :
    ¬∀ (P : Platform) (key : String) (m : WireMessage), (∀ k d, (P.hmacSha256 k d).length = 32) →
      P.RoundTrips → (∀ m json, P.toVec m = .ok json → 2 ≤ json.length) →
      ReadsBack (encodeAuthenticated P key m) (readMessageAuthenticated P key) m ∧
        ReadsBack (encodeMessage P m) (readMessage P) m := by
  intro hall
  have hobject : ∀ m json, longPlatform.toVec m = .ok json → 2 ≤ json.length := by
    intro m json hjson
    simp only [longPlatform, samplePlatform] at hjson
    split_ifs at hjson
    · cases hjson
      exact le_of_lt (lt_of_le_of_lt (by decide) length_longRequestJson)
    · cases hjson
      decide +kernel
    · cases hjson
      decide +kernel
  have hplain := (hall longPlatform sampleKey longRequest longPlatform_length
    longPlatform_roundTrips hobject).2
  have hle := (encodeMessage_readsBack_iff longPlatform_roundTrips longPlatform_toVec).mp hplain
  exact absurd length_longRequestJson (not_lt.mpr hle)

end LibreFang.Wire
