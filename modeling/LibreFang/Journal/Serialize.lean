import Mathlib.Logic.Equiv.List
import LibreFang.Journal.Entry

/-!
# A serialisation of entries

* `plainSerde`: entries without payload, each written as a number between braces.
* `Serde.patch`: a serialisation with the text of one entry replaced; `messageSerde`.
* **`ofCode_code`**: an entry is read back from its number.
-/

namespace LibreFang.Journal

open Text

/-! ## Entries as numbers -/

/-- What an entry without payload is coded as. -/
abbrev Code := List ℕ × ℕ × ℕ × Option (List ℕ) × ℤ

/-- The code points of a text. -/
def textCode (s : String) : List ℕ := s.toList.map Char.toNat

/-- The text of code points. -/
def ofTextCode (code : List ℕ) : String := String.ofList (code.map Char.ofNat)

theorem ofTextCode_textCode (s : String) : ofTextCode (textCode s) = s := by
  have hid : Char.ofNat ∘ Char.toNat = id := funext Char.ofNat_toNat
  unfold ofTextCode textCode
  rw [List.map_map, hid, List.map_id, String.ofList_toList]

/-- The number of a status. -/
def statusCode : JournalStatus → ℕ
  | .pending => 0
  | .processing => 1
  | .completed => 2
  | .failed => 3

/-- The status of a number. -/
def ofStatusCode : ℕ → JournalStatus
  | 0 => .pending
  | 1 => .processing
  | 2 => .completed
  | _ => .failed

theorem ofStatusCode_statusCode (status : JournalStatus) :
    ofStatusCode (statusCode status) = status := by
  cases status <;> rfl

/-- An entry as a code. -/
def JournalEntry.code (e : JournalEntry Unit) : Code :=
  (textCode e.messageId, statusCode e.status, e.attempts.toNat, e.lastError.map textCode, e.updatedAt)

/-- The entry of a code. -/
def ofCode (c : Code) : JournalEntry Unit :=
  ⟨ofTextCode c.1, ofStatusCode c.2.1, UInt32.ofNat c.2.2.1, c.2.2.2.1.map ofTextCode, c.2.2.2.2, ()⟩

/-- **An entry is read back from its code.** -/
theorem ofCode_code (e : JournalEntry Unit) : ofCode e.code = e := by
  obtain ⟨messageId, status, attempts, lastError, updatedAt, payload⟩ := e
  have hid : ofTextCode ∘ textCode = id := funext ofTextCode_textCode
  unfold ofCode JournalEntry.code
  dsimp only
  rw [ofTextCode_textCode, ofStatusCode_statusCode, UInt32.ofNat_toNat, Option.map_map, hid,
    Option.map_id, id]

/-- The digits of an entry. -/
def JournalEntry.digits (e : JournalEntry Unit) : List Char :=
  Nat.toDigits 10 (Encodable.encode e.code)

/-- The entry of digits. -/
def ofDigits (cs : List Char) : Option (JournalEntry Unit) :=
  (Encodable.decode (Nat.ofDigitChars 10 cs 0)).map ofCode

theorem ofDigits_digits (e : JournalEntry Unit) : ofDigits e.digits = some e := by
  unfold ofDigits JournalEntry.digits
  rw [Nat.ofDigitChars_toDigits (by decide) (by decide), Encodable.encodek, Option.map_some,
    ofCode_code]

/-! ## The serialisation -/

theorem notMem_braced_digits {c : Char} (hdigit : c.isDigit = false) (hopen : c ≠ '\x7b')
    (hclose : c ≠ '\x7d') (e : JournalEntry Unit) : c ∉ '\x7b' :: (e.digits ++ ['\x7d']) := by
  rw [List.mem_cons, List.mem_append, List.mem_singleton, not_or, not_or]
  refine ⟨hopen, fun hmem => ?_, hclose⟩
  have := isDigit_of_mem_toDigits hmem
  rw [hdigit] at this
  cases this

/-- Entries as numbers between braces. -/
def plainSerde : Serde Unit where
  write e := String.ofList ('\x7b' :: (e.digits ++ ['\x7d']))
  read s := ofDigits s.toList.tail.dropLast
  read_write e := by
    rw [String.toList_ofList, List.tail_cons, List.dropLast_concat, ofDigits_digits]
  newline_notMem e := by
    rw [String.toList_ofList]
    exact notMem_braced_digits rfl (by decide) (by decide) e
  braces e := ⟨e.digits, String.toList_ofList⟩

theorem plainSerde_write_ne {text : String} (h : '"' ∈ text.toList) (e : JournalEntry Unit) :
    plainSerde.write e ≠ text := by
  rintro rfl
  have hmem : '"' ∈ '\x7b' :: (e.digits ++ ['\x7d']) := by
    rw [← String.toList_ofList (l := '\x7b' :: (e.digits ++ ['\x7d']))]
    exact h
  exact notMem_braced_digits rfl (by decide) (by decide) e hmem

/-- The text is an object on one line, and has quotation marks. -/
def isObject (text : List Char) : Bool :=
  !text.contains '\n' && text.contains '"' && text.head? == some '\x7b' &&
    text.tail.getLast? == some '\x7d'

theorem exists_fields_of_isObject {text : List Char} (h : isObject text = true) :
    ∃ fields, text = '\x7b' :: (fields ++ ['\x7d']) := by
  simp only [isObject, Bool.and_eq_true, beq_iff_eq] at h
  obtain ⟨⟨-, hhead⟩, hlast⟩ := h
  cases text with
  | nil => cases hhead
  | cons c text =>
    obtain rfl : c = '\x7b' := Option.some.inj hhead
    have hlast : text.getLast? = some '\x7d' := hlast
    exact ⟨text.dropLast, by rw [List.dropLast_append_getLast? _ hlast]⟩

theorem newline_notMem_of_isObject {text : List Char} (h : isObject text = true) : '\n' ∉ text := by
  simp only [isObject, Bool.and_eq_true, Bool.not_eq_true', List.contains_eq_mem,
    decide_eq_false_iff_not] at h
  exact h.1.1.1

theorem quote_mem_of_isObject {text : List Char} (h : isObject text = true) : '"' ∈ text := by
  simp only [isObject, Bool.and_eq_true, List.contains_eq_mem, decide_eq_true_eq] at h
  exact h.1.1.2

/-- The text of one entry replaced by one that no entry has. -/
def Serde.patch {P : Type} [DecidableEq P] (serde : Serde P) (entry : JournalEntry P)
    (text : List Char) (hobject : isObject text = true)
    (hfresh : ∀ e, serde.write e ≠ String.ofList text) : Serde P where
  write e := if e = entry then String.ofList text else serde.write e
  read s := if s = String.ofList text then some entry else serde.read s
  read_write e := by
    by_cases he : e = entry
    · rw [if_pos he, if_pos rfl, he]
    · rw [if_neg he, if_neg (hfresh e), serde.read_write]
  newline_notMem e := by
    split_ifs
    · rw [String.toList_ofList]
      exact newline_notMem_of_isObject hobject
    · exact serde.newline_notMem e
  braces e := by
    split_ifs
    · rw [String.toList_ofList]
      exact exists_fields_of_isObject hobject
    · exact serde.braces e

/-! ## A message -/

/-- A message that was received. -/
def received : JournalEntry Unit := ⟨"m1", .pending, 0, none, 0, ()⟩

/-- The message when it was answered. -/
def answered : JournalEntry Unit := ⟨"m1", .completed, 0, none, 1, ()⟩

/-- The line of the message with its status. -/
def messageText (status updatedAt : String) : List Char :=
  "\x7b\"message_id\":\"m1\",\"channel\":\"telegram\",\"sender_id\":\"7\",".toList ++
  "\"sender_name\":\"Ann\",\"content\":\"hi\",\"agent_name\":null,".toList ++
  "\"received_at\":\"2024-01-01T00:00:00Z\",\"status\":\"".toList ++ status.toList ++
  "\",\"attempts\":0,\"last_error\":null,\"updated_at\":\"".toList ++ updatedAt.toList ++
  "\",\"is_group\":false,\"thread_id\":null,\"metadata\":\x7b\x7d\x7d".toList

/-- The line of the message that was received. -/
def receivedText : List Char := messageText "pending" "2024-01-01T00:00:00Z"

/-- The line of the message that was answered. -/
def answeredText : List Char := messageText "completed" "2024-01-01T00:00:01Z"

theorem isObject_receivedText : isObject receivedText = true := by decide +kernel

theorem isObject_answeredText : isObject answeredText = true := by decide +kernel

theorem receivedText_ne_answeredText : String.ofList receivedText ≠ String.ofList answeredText := by
  rw [ne_eq, String.ofList_inj]
  decide +kernel

/-- The serialisation with the line of the message that was received. -/
def receivedSerde : Serde Unit :=
  plainSerde.patch received receivedText isObject_receivedText
    (plainSerde_write_ne (by
      rw [String.toList_ofList]
      exact quote_mem_of_isObject isObject_receivedText))

/-- A serialisation that writes the message as the journal does. -/
def messageSerde : Serde Unit :=
  receivedSerde.patch answered answeredText isObject_answeredText (by
    intro e
    unfold receivedSerde Serde.patch
    dsimp only
    split_ifs
    · exact receivedText_ne_answeredText
    · refine plainSerde_write_ne ?_ e
      rw [String.toList_ofList]
      exact quote_mem_of_isObject isObject_answeredText)

end LibreFang.Journal
