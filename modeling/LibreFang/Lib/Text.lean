import Mathlib.Data.List.DropRight
import Mathlib.Data.List.Infix
import Mathlib.Algebra.GroupWithZero.Nat

/-!
# Text

String operations of the Rust standard library, over lists of characters.

* `isWhitespace`: the Unicode `White_Space` property, as `char::is_whitespace` has it.
* `parseU64`: the decimal reader of `u64`; **`parseU64_toDigits`** reads back what is printed.
* `utf8`: the bytes of a string; **`utf8_injective`**, **`fromUtf8?_eq_some`**.
-/

namespace Text

/-- `char::is_whitespace`: the code points with the Unicode property `White_Space`. -/
def isWhitespace (c : Char) : Bool :=
  (0x9 ≤ c.toNat && c.toNat ≤ 0xD) || c.toNat == 0x20 || c.toNat == 0x85 || c.toNat == 0xA0 ||
    c.toNat == 0x1680 || (0x2000 ≤ c.toNat && c.toNat ≤ 0x200A) || c.toNat == 0x2028 ||
    c.toNat == 0x2029 || c.toNat == 0x202F || c.toNat == 0x205F || c.toNat == 0x3000

/-- `str::trim_start`. -/
def trimStart (s : List Char) : List Char := s.dropWhile isWhitespace

/-- `str::trim_end`. -/
def trimEnd (s : List Char) : List Char := s.rdropWhile isWhitespace

/-- `str::trim`. -/
def trim (s : List Char) : List Char := trimEnd (trimStart s)

/-- The first of `str::lines`; an empty text has none and reads as empty. -/
def firstLine (s : List Char) : List Char :=
  let line := s.takeWhile (· != '\n')
  if '\n' ∈ s ∧ line.getLast? = some '\r' then line.dropLast else line

/-- `str::splitn` at the first whitespace: what is before it, and what is after it if any. -/
def splitWhitespaceOnce (s : List Char) : List Char × Option (List Char) :=
  (s.takeWhile fun c => !isWhitespace c, (s.dropWhile fun c => !isWhitespace c).tail?)

/-- `str::split_whitespace`. -/
def splitWhitespace (s : List Char) : List (List Char) :=
  (s.splitOnP isWhitespace).filter (· ≠ [])

/-- The longest beginning of at most `maxBytes` bytes that ends between two characters. -/
def truncateChars (maxBytes : ℕ) : List Char → List Char
  | [] => []
  | c :: cs => if c.utf8Size ≤ maxBytes then c :: truncateChars (maxBytes - c.utf8Size) cs else []

/-- `truncate_str`: at most `maxBytes` bytes, cut between two characters. -/
def truncateStr (s : String) (maxBytes : ℕ) : String :=
  String.ofList (truncateChars maxBytes s.toList)

/-- `str::contains`. -/
def containsStr (s pattern : String) : Bool := decide (pattern.toList <:+: s.toList)

variable {s : List Char} {c : Char}

theorem mem_of_mem_trim (h : c ∈ trim s) : c ∈ s :=
  (List.dropWhile_sublist _).subset ((List.rdropWhile_prefix _ _).subset h)

/-- The scan of `str::replace` with a pattern that is not empty; the characters of a match that was
replaced are skipped. -/
def replaceChars (pattern new : List Char) : ℕ → List Char → List Char
  | _, [] => []
  | skip + 1, _ :: s => replaceChars pattern new skip s
  | 0, c :: s =>
    if pattern.isPrefixOf (c :: s) then new ++ replaceChars pattern new (pattern.length - 1) s
    else c :: replaceChars pattern new 0 s

/-- `str::replace` with a pattern that is not empty. -/
def replaceStr (s pattern new : String) : String :=
  String.ofList (replaceChars pattern.toList new.toList 0 s.toList)

/-- `str::split_once` with a pattern that is not empty: what is before its first occurrence and what
is after it. -/
def splitOnceStr (pattern : List Char) : List Char → Option (List Char × List Char)
  | [] => none
  | c :: s =>
    if pattern.isPrefixOf (c :: s) then some ([], (c :: s).drop pattern.length)
    else (splitOnceStr pattern s).map fun parts => (c :: parts.1, parts.2)

theorem mem_intercalate {sep : List Char} {texts : List (List Char)}
    (h : c ∈ sep.intercalate texts) : c ∈ sep ∨ ∃ text ∈ texts, c ∈ text := by
  unfold List.intercalate at h
  induction texts with
  | nil => cases h
  | cons text texts ih =>
    cases texts with
    | nil =>
      rw [List.intersperse_singleton, List.flatten_singleton] at h
      exact .inr ⟨text, List.mem_cons_self, h⟩
    | cons next texts =>
      rw [List.intersperse_cons_cons, List.flatten_cons, List.flatten_cons, List.mem_append,
        List.mem_append] at h
      rcases h with h | h | h
      · exact .inr ⟨text, List.mem_cons_self, h⟩
      · exact .inl h
      · exact (ih h).imp_right fun ⟨t, ht, hc⟩ => ⟨t, List.mem_cons_of_mem _ ht, hc⟩

theorem mem_splitOn {cs : List Char} (sep : Char) (h : c ∈ cs) :
    c = sep ∨ ∃ text ∈ cs.splitOn sep, c ∈ text := by
  have hcs : [sep].intercalate (cs.splitOn sep) = cs := List.intercalate_splitOn sep
  rw [← hcs] at h
  exact (mem_intercalate h).imp_left List.mem_singleton.mp

theorem eq_of_splitOnceStr {pattern s head tail : List Char}
    (h : splitOnceStr pattern s = some (head, tail)) : s = head ++ (pattern ++ tail) := by
  induction s generalizing head with
  | nil => cases h
  | cons c s ih =>
    unfold splitOnceStr at h
    by_cases hprefix : pattern.isPrefixOf (c :: s) = true
    · rw [if_pos hprefix] at h
      obtain ⟨rest, hrest⟩ := List.isPrefixOf_iff_prefix.mp hprefix
      rw [← hrest, List.drop_left] at h
      cases h
      exact hrest.symm
    · rw [if_neg hprefix, Option.map_eq_some_iff] at h
      obtain ⟨parts, hparts, heq⟩ := h
      cases heq
      rw [List.cons_append, ← ih hparts]

theorem splitOnceStr_append {pattern s : List Char} (hs : c ∉ s) (t : List Char) :
    splitOnceStr (c :: pattern) (s ++ t) =
      (splitOnceStr (c :: pattern) t).map fun parts => (s ++ parts.1, parts.2) := by
  induction s with
  | nil => simp
  | cons d s ih =>
    rw [List.mem_cons, not_or] at hs
    obtain ⟨hd, hs⟩ := hs
    have hprefix : ¬ (c :: pattern).isPrefixOf (d :: (s ++ t)) = true := by
      rw [List.isPrefixOf_cons_cons, beq_eq_false_iff_ne.mpr hd, Bool.false_and]
      exact Bool.false_ne_true
    rw [List.cons_append, splitOnceStr, if_neg hprefix, ih hs, Option.map_map]
    rfl

theorem splitOnceStr_self_append (c : Char) (pattern t : List Char) :
    splitOnceStr (c :: pattern) (c :: pattern ++ t) = some ([], t) := by
  have hprefix : (c :: pattern).isPrefixOf (c :: pattern ++ t) = true :=
    List.isPrefixOf_iff_prefix.mpr ⟨t, rfl⟩
  rw [List.cons_append] at hprefix ⊢
  rw [splitOnceStr, if_pos hprefix, ← List.cons_append, List.drop_left]

/-! ## Beginnings of texts -/

variable {p : Char → Bool}

theorem takeWhile_append_of_mem (hc : c ∈ s)
    (hp : p c = false) (t : List Char) : (s ++ t).takeWhile p = s.takeWhile p := by
  induction s with
  | nil => cases hc
  | cons d s ih =>
    rw [List.cons_append, List.takeWhile_cons, List.takeWhile_cons]
    cases hd : p d with
    | false => rfl
    | true =>
      have hcs : c ∈ s := (List.mem_cons.mp hc).resolve_left fun h => by rw [← h, hp] at hd; cases hd
      rw [if_pos rfl, if_pos rfl, ih hcs]

theorem takeWhile_append_cons (hp : p c = false) (s t : List Char) :
    (s ++ c :: t).takeWhile p = s.takeWhile p := by
  induction s with
  | nil => exact List.takeWhile_cons_of_neg (ne_true_of_eq_false hp)
  | cons d s ih => rw [List.cons_append, List.takeWhile_cons, List.takeWhile_cons, ih]

/-! ## Reading numbers -/

/-- The digit loop of `u64::from_str`. -/
def parseU64Loop (acc : ℕ) : List Char → Except String ℕ
  | [] => .ok acc
  | c :: cs =>
    if c.isDigit then
      let acc' := 10 * acc + (c.toNat - '0'.toNat)
      if acc' < 2 ^ 64 then parseU64Loop acc' cs
      else .error "number too large to fit in target type"
    else .error "invalid digit found in string"

/-- `u64::from_str`. -/
def parseU64 (s : List Char) : Except String ℕ :=
  match s with
  | [] => .error "cannot parse integer from empty string"
  | ['+'] => .error "invalid digit found in string"
  | '+' :: cs => parseU64Loop 0 cs
  | cs => parseU64Loop 0 cs

/-- `u32::from_str`, when it succeeds. -/
def parseU32 (s : List Char) : Option ℕ :=
  match parseU64 s with
  | .ok n => if n < 2 ^ 32 then some n else none
  | .error _ => none

theorem le_ofDigitChars (cs : List Char) (acc : ℕ) : acc ≤ Nat.ofDigitChars 10 cs acc := by
  induction cs generalizing acc with
  | nil => rw [Nat.ofDigitChars_nil]
  | cons c cs ih =>
    rw [Nat.ofDigitChars_cons]
    exact le_trans (by omega) (ih _)

theorem parseU64Loop_eq {cs : List Char} {acc : ℕ} (hd : ∀ c ∈ cs, c.isDigit = true)
    (hn : Nat.ofDigitChars 10 cs acc < 2 ^ 64) :
    parseU64Loop acc cs = .ok (Nat.ofDigitChars 10 cs acc) := by
  induction cs generalizing acc with
  | nil => rw [Nat.ofDigitChars_nil, parseU64Loop]
  | cons c cs ih =>
    rw [Nat.ofDigitChars_cons] at hn ⊢
    have hlt := lt_of_le_of_lt (le_ofDigitChars cs _) hn
    rw [parseU64Loop, if_pos (hd c List.mem_cons_self)]
    simp only [if_pos hlt]
    exact ih (fun d hd' => hd d (List.mem_cons_of_mem _ hd')) hn

theorem isDigit_of_mem_toDigits {n : ℕ} (h : c ∈ Nat.toDigits 10 n) :
    c.isDigit = true := Nat.isDigit_of_mem_toDigits (by omega) (by omega) h

/-- **Reading back what was printed.** -/
theorem parseU64_toDigits {n : ℕ} (hn : n < 2 ^ 64) : parseU64 (Nat.toDigits 10 n) = .ok n := by
  have hd : ∀ c ∈ Nat.toDigits 10 n, c.isDigit = true := fun _ => isDigit_of_mem_toDigits
  have hloop : parseU64Loop 0 (Nat.toDigits 10 n) = .ok n := by
    rw [parseU64Loop_eq hd] <;> rw [Nat.ofDigitChars_ten_toDigits]
    exact hn
  have hplus : '+' ∉ Nat.toDigits 10 n := fun h => by simpa using hd _ h
  unfold parseU64
  split
  · rename_i h
    exact absurd h Nat.toDigits_ne_nil
  · rename_i h
    simp [h] at hplus
  · rename_i h
    simp [h] at hplus
  · exact hloop

/-! ## Bytes -/

/-- `str::as_bytes`. -/
def utf8 (s : String) : List UInt8 := s.toList.flatMap String.utf8EncodeChar

@[simp] theorem utf8_append (s t : String) : utf8 (s ++ t) = utf8 s ++ utf8 t := by
  rw [utf8, String.toList_append, List.flatMap_append, utf8, utf8]

theorem toNat_eq_of_mem_utf8EncodeChar {b : UInt8} (hb : b ∈ String.utf8EncodeChar c)
    (hlt : b.toNat < 128) : b.toNat = c.toNat := by
  have hhigh (x k : ℕ) (hk : 128 ≤ k) (hx : x + k < 256) : ¬ (UInt8.ofNat (x + k)).toNat < 128 := by
    rw [UInt8.toNat_ofNat', Nat.mod_eq_of_lt hx]
    omega
  unfold String.utf8EncodeChar at hb
  dsimp only at hb
  split_ifs at hb with h1 h2 h3
  · rw [List.mem_singleton.mp hb, UInt8.toNat_ofNat']
    exact Nat.mod_eq_of_lt (by omega)
  · simp only [List.mem_cons, List.not_mem_nil, or_false] at hb
    rcases hb with rfl | rfl <;> exact absurd hlt (hhigh _ _ (by decide) (by omega))
  · simp only [List.mem_cons, List.not_mem_nil, or_false] at hb
    rcases hb with rfl | rfl | rfl <;> exact absurd hlt (hhigh _ _ (by decide) (by omega))
  · simp only [List.mem_cons, List.not_mem_nil, or_false] at hb
    rcases hb with rfl | rfl | rfl | rfl <;> exact absurd hlt (hhigh _ _ (by decide) (by omega))

theorem exists_mem_of_mem_utf8 {s : String} {b : UInt8} (hb : b ∈ utf8 s) (hlt : b.toNat < 128) :
    ∃ c ∈ s.toList, b.toNat = c.toNat := by
  obtain ⟨c, hc, hmem⟩ := List.mem_flatMap.mp hb
  exact ⟨c, hc, toNat_eq_of_mem_utf8EncodeChar hmem hlt⟩

theorem utf8_injective : Function.Injective utf8 := by
  intro s t h
  have he : s.toList.utf8Encode = t.toList.utf8Encode := congrArg List.toByteArray h
  rw [String.utf8Encode_toList, String.utf8Encode_toList] at he
  exact String.toByteArray_inj.mp he

/-- `str::from_utf8`. -/
def fromUtf8? (bs : List UInt8) : Option String := String.fromUTF8? bs.toByteArray

theorem fromUtf8?_eq_some {bs : List UInt8} {s : String} : fromUtf8? bs = some s ↔ utf8 s = bs := by
  have hbytes : (utf8 s).toByteArray = s.toByteArray := String.utf8Encode_toList
  have hiff : utf8 s = bs ↔ s.toByteArray = bs.toByteArray := by
    rw [← hbytes]
    constructor
    · exact congrArg List.toByteArray
    · intro h
      have := congrArg (fun b => b.data.toList) h
      simpa only [List.toList_data_toByteArray] using this
  rw [hiff, fromUtf8?, String.fromUTF8?]
  constructor
  · intro h
    split_ifs at h with hv
    rw [← Option.some.inj h]
    rfl
  · intro h
    have hv : bs.toByteArray.IsValidUTF8 := h ▸ s.isValidUTF8
    rw [dif_pos hv]
    exact congrArg some (String.toByteArray_inj.mp h.symm)

/-- A lower-case hexadecimal digit. -/
def hexDigit (n : ℕ) : Char := "0123456789abcdef".toList[n]?.getD '0'

/-- `hex::encode`. -/
def hexEncode (bs : List UInt8) : String :=
  String.ofList (bs.flatMap fun b => [hexDigit (b.toNat / 16), hexDigit (b.toNat % 16)])

/-- `char::is_ascii_hexdigit`. -/
def isAsciiHexdigit (c : Char) : Bool :=
  ('0' ≤ c && c ≤ '9') || ('a' ≤ c && c ≤ 'f') || ('A' ≤ c && c ≤ 'F')

theorem isAsciiHexdigit_of_mem_toDigits {n : ℕ} (h : c ∈ Nat.toDigits 16 n) :
    isAsciiHexdigit c = true := by
  have hdigit : ∀ d < 16, isAsciiHexdigit (Nat.digitChar d) = true := by decide
  induction n using Nat.strongRecOn with
  | ind n ih =>
    by_cases hlt : n < 16
    · rw [Nat.toDigits_of_lt_base hlt, List.mem_singleton] at h
      rw [h]
      exact hdigit n hlt
    · rw [Nat.toDigits_of_base_le (by decide) (Nat.le_of_not_lt hlt), List.mem_append,
        List.mem_singleton] at h
      rcases h with h | rfl
      · exact ih (n / 16) (by omega) h
      · exact hdigit _ (Nat.mod_lt _ (by decide))

theorem hexDigit_mem (n : ℕ) : hexDigit n ∈ "0123456789abcdef".toList := by
  unfold hexDigit
  cases h : "0123456789abcdef".toList[n]? with
  | none => decide
  | some c => exact List.mem_of_getElem? h

theorem forall_hexEncode (h : "0123456789abcdef".toList.all p = true)
    (bs : List UInt8) : ∀ c ∈ (hexEncode bs).toList, p c = true := by
  rw [List.all_eq_true] at h
  intro c hc
  rw [hexEncode, String.toList_ofList] at hc
  obtain ⟨b, -, hb⟩ := List.mem_flatMap.mp hc
  simp only [List.mem_cons, List.not_mem_nil, or_false] at hb
  rcases hb with rfl | rfl
  · exact h _ (hexDigit_mem _)
  · exact h _ (hexDigit_mem _)

theorem isAsciiHexdigit_hexEncode (bs : List UInt8) :
    ∀ c ∈ (hexEncode bs).toList, isAsciiHexdigit c = true := forall_hexEncode (by decide) bs

theorem not_isWhitespace_hexEncode (bs : List UInt8) :
    ∀ c ∈ (hexEncode bs).toList, isWhitespace c = false := by
  simpa using forall_hexEncode (p := fun c => !isWhitespace c) (by decide) bs

theorem hexDigit_inj {m n : ℕ} (hm : m < 16) (hn : n < 16) (h : hexDigit m = hexDigit n) :
    m = n := by
  have hall : ∀ i : Fin 16, ∀ j : Fin 16, hexDigit i = hexDigit j → i = j := by decide
  simpa using hall ⟨m, hm⟩ ⟨n, hn⟩ h

theorem hexEncode_injective : Function.Injective hexEncode := by
  intro bs cs h
  replace h := congrArg String.toList h
  simp only [hexEncode, String.toList_ofList] at h
  induction bs generalizing cs with
  | nil =>
    cases cs with
    | nil => rfl
    | cons c cs => simp at h
  | cons b bs ih =>
    cases cs with
    | nil => simp at h
    | cons c cs =>
      simp only [List.flatMap_cons, List.cons_append, List.nil_append, List.cons.injEq] at h
      obtain ⟨hhi, hlo, hrest⟩ := h
      have hb := b.toNat_lt
      have hc := c.toNat_lt
      have h₁ := hexDigit_inj (by omega) (by omega) hhi
      have h₂ := hexDigit_inj (by omega) (by omega) hlo
      have hbc : b.toNat = c.toNat := by omega
      rw [UInt8.toNat_inj.mp hbc, ih hrest]

theorem length_utf8_hexEncode (bs : List UInt8) : (utf8 (hexEncode bs)).length = 2 * bs.length := by
  have hone : ∀ c ∈ (hexEncode bs).toList, (String.utf8EncodeChar c).length = 1 := by
    simpa using forall_hexEncode (p := fun c => (String.utf8EncodeChar c).length == 1) (by decide) bs
  have hlen : (hexEncode bs).toList.length = 2 * bs.length := by
    rw [hexEncode, String.toList_ofList, List.length_flatMap]
    simp [Nat.mul_comm]
  rw [utf8, List.length_flatMap, List.map_congr_left hone, List.map_const']
  simpa using hlen

/-! ## Trimming what has no blanks at its ends -/

theorem trim_eq_self (hh : ∀ c ∈ s.head?, isWhitespace c = false)
    (hl : ∀ c ∈ s.getLast?, isWhitespace c = false) : trim s = s := by
  have hstart : trimStart s = s := by
    cases s with
    | nil => rfl
    | cons c s =>
      rw [trimStart, List.dropWhile_cons_of_neg]
      simp [hh c rfl]
  rw [trim, hstart, trimEnd, List.rdropWhile_eq_self_iff]
  intro hne
  simp [hl _ (List.getLast?_eq_some_getLast hne)]

theorem trim_of_not_isWhitespace (h : ∀ c ∈ s, isWhitespace c = false) : trim s = s :=
  trim_eq_self (fun c hc => h c (List.mem_of_mem_head? hc))
    (fun c hc => h c (List.mem_of_getLast? hc))

/-- The text has no blanks at its ends, and is not empty. -/
structure Tidy (s : List Char) : Prop where
  head : ∃ c, s.head? = some c ∧ isWhitespace c = false
  last : ∃ c, s.getLast? = some c ∧ isWhitespace c = false

theorem Tidy.ne_nil (h : Tidy s) : s ≠ [] := by
  rintro rfl
  obtain ⟨c, hc, -⟩ := h.head
  cases hc

theorem Tidy.append {s t : List Char} (hs : Tidy s) (ht : Tidy t) (between : List Char) :
    Tidy (s ++ between ++ t) where
  head := by
    obtain ⟨c, hc, hblank⟩ := hs.head
    refine ⟨c, ?_, hblank⟩
    rw [List.append_assoc, List.head?_append, hc]
    rfl
  last := by
    obtain ⟨c, hc, hblank⟩ := ht.last
    refine ⟨c, ?_, hblank⟩
    rw [List.getLast?_append, hc]
    rfl

theorem dropWhile_of_head? (hc : s.head? = some c)
    (hp : p c = false) : s.dropWhile p = s := by
  cases s with
  | nil => rfl
  | cons b s =>
    obtain rfl := Option.some.inj hc
    rw [List.dropWhile_cons_of_neg (by rw [hp]; exact Bool.false_ne_true)]

/-- **Blanks around a tidy text are trimmed.** -/
theorem Tidy.trim_blanks (h : Tidy s) {before after : List Char}
    (hbefore : ∀ c ∈ before, isWhitespace c = true)
    (hafter : ∀ c ∈ after, isWhitespace c = true) : trim (before ++ s ++ after) = s := by
  obtain ⟨c, hc, hblank⟩ := h.head
  obtain ⟨d, hd, hblank'⟩ := h.last
  have hstart : trimStart (before ++ s ++ after) = s ++ after := by
    rw [trimStart, List.append_assoc, List.dropWhile_append_of_pos hbefore]
    refine dropWhile_of_head? (c := c) ?_ hblank
    rw [List.head?_append, hc]
    rfl
  rw [trim, hstart, trimEnd, List.rdropWhile, List.reverse_append,
    List.dropWhile_append_of_pos fun a ha => hafter a (List.mem_reverse.mp ha),
    dropWhile_of_head? (List.head?_reverse.trans hd) hblank', List.reverse_reverse]

theorem isWhitespace_of_mem_nil : ∀ c ∈ ([] : List Char), isWhitespace c = true :=
  fun _ hc => absurd hc List.not_mem_nil

theorem Tidy.trim (h : Tidy s) : Text.trim s = s := by
  have htrim := h.trim_blanks isWhitespace_of_mem_nil isWhitespace_of_mem_nil
  rwa [List.nil_append, List.append_nil] at htrim

theorem splitWhitespaceOnce_append {s t : List Char} {b : Char}
    (hs : ∀ c ∈ s, isWhitespace c = false) (hb : isWhitespace b = true) :
    splitWhitespaceOnce (s ++ b :: t) = (s, some t) := by
  have hall : ∀ c ∈ s, (!isWhitespace c) = true := fun c hc => by rw [hs c hc]; rfl
  unfold splitWhitespaceOnce
  rw [List.takeWhile_append_of_pos hall, List.dropWhile_append_of_pos hall,
    List.takeWhile_cons_of_neg (by simp [hb]), List.dropWhile_cons_of_neg (by simp [hb]),
    List.append_nil]
  rfl

theorem not_isWhitespace_of_isDigit (h : c.isDigit = true) : isWhitespace c = false := by
  simp only [Char.isDigit, ge_iff_le, Bool.and_eq_true, decide_eq_true_eq] at h
  have h₁ : 48 ≤ c.toNat := h.1
  have h₂ : c.toNat ≤ 57 := h.2
  simp only [isWhitespace, Bool.or_eq_false_iff, Bool.and_eq_false_iff, decide_eq_false_iff_not,
    beq_eq_false_iff_ne]
  omega

end Text
