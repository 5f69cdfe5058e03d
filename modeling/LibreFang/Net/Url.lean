import LibreFang.Net.Address

/-!
# The host of a URL by the URL standard

What the HTTP client takes as the host of a web URL. The code of `check_ssrf` is not used here.

* `cleanUrl`, `authorityOf`, `splitHostPort`: the parts of a URL.
* `hostParser`: the host parser; IPv6 in brackets, domains, and numbers that are IPv4 addresses.
* `whatwgHost`: the host of a URL as text.
* **`isHost_of_hostParser`**: the form of a host.
-/

namespace LibreFang.Net

open Text

/-! ## The parts of a URL -/

/-- A C0 control or a space. -/
def isC0OrSpace (c : Char) : Bool := c.toNat ≤ 0x20

/-- An ASCII tab or newline. -/
def isTabOrNewline (c : Char) : Bool := c == '\t' || c == '\n' || c == '\r'

/-- The input of the URL parser, without the characters that it removes. -/
def cleanUrl (url : List Char) : List Char :=
  ((url.dropWhile isC0OrSpace).rdropWhile isC0OrSpace).filter fun c => !isTabOrNewline c

/-- A slash; in a web URL a backslash is one. -/
def isSlash (c : Char) : Bool := c == '/' || c == '\\'

/-- A character that ends the authority. -/
def endsAuthority (c : Char) : Bool := isSlash c || c == '?' || c == '#'

/-- The beginning of a text up to the end of an authority. -/
def authorityOf (cs : List Char) : List Char := cs.takeWhile fun c => !endsAuthority c

/-- The part after the last `@`, or all if there is none. -/
def afterUserinfo (authority : List Char) : List Char := authority.rtakeWhile (· != '@')

/-- Host and port; a colon in brackets does not separate them. -/
def splitHostPort (inBrackets : Bool) : List Char → List Char × List Char
  | [] => ([], [])
  | c :: cs =>
    if c = ':' ∧ inBrackets = false then ([], cs)
    else
      let parts := splitHostPort (if c = '[' then true else if c = ']' then false else inBrackets) cs
      (c :: parts.1, parts.2)

/-- A port that the parser accepts; it may be empty. -/
def isPort (port : List Char) : Bool := port.all Char.isDigit && decide (ofDigits 10 port ≤ 65535)

/-! ## The host parser -/

/-- The bytes of a text with its percent-encoded bytes decoded. -/
def percentDecode : List Char → List UInt8
  | '%' :: hi :: lo :: cs =>
    if isAsciiHexdigit hi ∧ isAsciiHexdigit lo then
      UInt8.ofNat (16 * digitValue hi + digitValue lo) :: percentDecode cs
    else String.utf8EncodeChar '%' ++ percentDecode (hi :: lo :: cs)
  | c :: cs => String.utf8EncodeChar c ++ percentDecode cs
  | [] => []

/-- A forbidden domain code point. -/
def isForbiddenDomain (c : Char) : Bool :=
  c.toNat ≤ 0x20 || c == '#' || c == '/' || c == ':' || c == '<' || c == '>' || c == '?' ||
    c == '@' || c == '[' || c == '\\' || c == ']' || c == '^' || c == '|' || c == '%' ||
    c.toNat == 0x7f

/-- The IPv4 number parser: decimal, or octal after `0`, or hexadecimal after `0x`. -/
def ipv4Number (cs : List Char) : Option ℕ :=
  match cs with
  | [] => none
  | '0' :: 'x' :: ds | '0' :: 'X' :: ds =>
    if ds.all isAsciiHexdigit then some (ofDigits 16 ds) else none
  | '0' :: d :: ds =>
    if (d :: ds).all fun c => '0' ≤ c ∧ c ≤ '7' then some (ofDigits 8 (d :: ds)) else none
  | ds => if ds.all Char.isDigit then some (ofDigits 10 ds) else none

/-- The labels of a domain; one empty label at the end is left out. -/
def labels (domain : List Char) : List (List Char) :=
  let parts := domain.splitOn '.'
  if parts.getLast? = some [] ∧ 1 < parts.length then parts.dropLast else parts

/-- The ends-in-a-number checker. -/
def endsInNumber (domain : List Char) : Bool :=
  match (labels domain).getLast? with
  | none => false
  | some last => !last.isEmpty && last.all Char.isDigit || (ipv4Number last).isSome

/-- The numbers of an IPv4 address; the last one fills the bytes that are left. -/
def ofNumbers (numbers : List ℕ) : Option Ipv4Addr :=
  match numbers.reverse with
  | [] => none
  | last :: rest =>
    if 3 < rest.length ∨ rest.any (255 < ·) ∨ 256 ^ (4 - rest.length) ≤ last then none
    else
      some (BitVec.ofNat 32
        (last + ((rest.reverse.zipIdx).map fun (n, i) => n * 256 ^ (3 - i)).sum))

/-- The IPv4 parser. -/
def ipv4Parser (domain : List Char) : Option Ipv4Addr :=
  (labels domain).mapM ipv4Number >>= ofNumbers

/-- The host parser, with the host as text; `domainToAscii` takes the bytes of a domain to its ASCII
form. -/
def hostParser (domainToAscii : List UInt8 → Option (List Char)) (host : List Char) :
    Option (List Char) :=
  match host with
  | '[' :: rest =>
    if rest.getLast? = some ']' then
      (parseIpv6 rest.dropLast).map fun ip => '[' :: (ipv6Text ip ++ [']'])
    else none
  | _ => do
    let asciiDomain ← domainToAscii (percentDecode host)
    if asciiDomain = [] ∨ asciiDomain.any isForbiddenDomain then none
    else if endsInNumber asciiDomain then (ipv4Parser asciiDomain).map ipv4Text
    else some asciiDomain

/-- The host of an authority. -/
def hostOfAuthority (domainToAscii : List UInt8 → Option (List Char)) (authority : List Char) :
    Option (List Char) :=
  let parts := splitHostPort false (afterUserinfo authority)
  if parts.1 ≠ [] ∧ isPort parts.2 then hostParser domainToAscii parts.1 else none

/-- The host of a web URL. -/
def whatwgHost (domainToAscii : List UInt8 → Option (List Char)) (url : List Char) :
    Option (List Char) :=
  match splitOnceStr ":".toList (cleanUrl url) with
  | none => none
  | some (scheme, rest) =>
    if String.ofList (scheme.map Char.toLower) ∈ ["http", "https"] then
      hostOfAuthority domainToAscii (authorityOf (rest.dropWhile isSlash))
    else none

/-! ## The characters of a host -/

/-- A character that the parts of a URL do not end at. -/
def isPlain (c : Char) : Bool := !isC0OrSpace c && !endsAuthority c && c != '@'

/-- The form of a host: an address in brackets, or a text without colons and brackets. -/
structure IsHost (host : List Char) : Prop where
  ne_nil : host ≠ []
  plain : ∀ c ∈ host, isPlain c = true
  shape : (∃ inner, host = '[' :: (inner ++ [']']) ∧ '[' ∉ inner ∧ ']' ∉ inner) ∨
    (':' ∉ host ∧ '[' ∉ host ∧ ']' ∉ host)

/-- The characters of an IPv6 address. -/
def isIpv6Char (c : Char) : Bool := isAsciiHexdigit c || c == ':' || c == '.'

variable {c : Char}

theorem isPlain_iff :
    isPlain c = true ↔ 0x20 < c.toNat ∧ c ≠ '/' ∧ c ≠ '\\' ∧ c ≠ '?' ∧ c ≠ '#' ∧ c ≠ '@' := by
  unfold isPlain isC0OrSpace endsAuthority isSlash
  simp only [Bool.and_eq_true, Bool.not_eq_true', decide_eq_false_iff_not, Nat.not_le,
    Bool.or_eq_false_iff, beq_eq_false_iff_ne, bne_iff_ne, and_assoc]

theorem lt_toNat_of_isIpv6Char (h : isIpv6Char c = true) : 0x20 < c.toNat := by
  unfold isIpv6Char isAsciiHexdigit at h
  simp only [Bool.or_eq_true, Bool.and_eq_true, decide_eq_true_eq, beq_iff_eq] at h
  have hle (b : Char) (hb : 0x20 < b.toNat) (hc : b ≤ c) : 0x20 < c.toNat := Nat.lt_of_lt_of_le hb hc
  rcases h with (((h | h) | h) | rfl) | rfl
  · exact hle '0' (by decide) h.1
  · exact hle 'a' (by decide) h.1
  · exact hle 'A' (by decide) h.1
  · decide
  · decide

theorem isPlain_of_isIpv6Char (h : isIpv6Char c = true) : isPlain c = true ∧ c ≠ '[' ∧ c ≠ ']' := by
  have hne (b : Char) (hb : isIpv6Char b = false) : c ≠ b := by
    rintro rfl
    rw [h] at hb
    cases hb
  rw [isPlain_iff]
  exact ⟨⟨lt_toNat_of_isIpv6Char h, hne _ rfl, hne _ rfl, hne _ rfl, hne _ rfl, hne _ rfl⟩,
    hne _ rfl, hne _ rfl⟩

theorem isIpv6Char_of_isDigit (h : c.isDigit = true) : isIpv6Char c = true := by
  have hhex : isAsciiHexdigit c = true := by
    unfold Char.isDigit at h
    unfold isAsciiHexdigit
    rw [Bool.or_eq_true, Bool.or_eq_true]
    exact .inl (.inl h)
  unfold isIpv6Char
  rw [hhex]
  rfl

theorem isIpv6Char_of_mem_ipv6Text {ip : Ipv6Addr} (h : c ∈ ipv6Text ip) : isIpv6Char c = true := by
  have hsegments {segments : List (BitVec 16)} (hc : c ∈ segmentsText segments) :
      isIpv6Char c = true := by
    rcases mem_intercalate hc with hc | ⟨text, htext, hc⟩
    · rw [List.mem_singleton.mp hc]
      rfl
    · obtain ⟨s, -, rfl⟩ := List.mem_map.mp htext
      unfold isIpv6Char
      rw [isAsciiHexdigit_of_mem_toDigits hc]
      rfl
  unfold ipv6Text at h
  dsimp only at h
  split_ifs at h
  · rw [List.mem_append, List.mem_append] at h
    rcases h with (h | h) | h
    · exact hsegments h
    · simp only [List.mem_cons, List.not_mem_nil, or_false, or_self] at h
      rw [h]
      rfl
    · exact hsegments h
  · exact hsegments h

variable {cs : List Char}

theorem isIpv6Char_of_parseOctet {b : BitVec 8} (h : parseOctet cs = some b) :
    ∀ c ∈ cs, isIpv6Char c = true := by
  unfold parseOctet at h
  split_ifs at h with hcs
  intro c hc
  exact isIpv6Char_of_isDigit (List.all_eq_true.mp hcs.2.2.1 c hc)

theorem isIpv6Char_of_parseSegment {s : BitVec 16} (h : parseSegment cs = some s) :
    ∀ c ∈ cs, isIpv6Char c = true := by
  unfold parseSegment at h
  split_ifs at h with hcs
  intro c hc
  unfold isIpv6Char
  rw [List.all_eq_true.mp hcs.2.2 c hc]
  rfl

theorem isIpv6Char_of_parseIpv4 {ip : Ipv4Addr} (h : parseIpv4 cs = some ip) :
    ∀ c ∈ cs, isIpv6Char c = true := by
  unfold parseIpv4 at h
  split at h
  · rename_i a b c d hsplit
    simp only [Option.bind_eq_bind, Option.bind_eq_some_iff] at h
    obtain ⟨_, ha, _, hb, _, hc, _, hd, -⟩ := h
    intro x hx
    rcases mem_splitOn '.' hx with rfl | ⟨text, htext, hin⟩
    · rfl
    · rw [hsplit] at htext
      simp only [List.mem_cons, List.not_mem_nil, or_false] at htext
      rcases htext with rfl | rfl | rfl | rfl
      · exact isIpv6Char_of_parseOctet ha x hin
      · exact isIpv6Char_of_parseOctet hb x hin
      · exact isIpv6Char_of_parseOctet hc x hin
      · exact isIpv6Char_of_parseOctet hd x hin
  · cases h

variable {segments : List (BitVec 16)}

theorem isIpv6Char_of_mapM {texts : List (List Char)}
    (h : texts.mapM parseSegment = some segments) :
    ∀ text ∈ texts, ∀ c ∈ text, isIpv6Char c = true := by
  induction texts generalizing segments with
  | nil => exact fun text htext => nomatch htext
  | cons text texts ih =>
    rw [List.mapM_cons] at h
    simp only [Option.bind_eq_bind, Option.bind_eq_some_iff] at h
    obtain ⟨s, hs, rest, hrest, -⟩ := h
    intro t ht
    rcases List.mem_cons.mp ht with rfl | ht
    · exact isIpv6Char_of_parseSegment hs
    · exact ih hrest t ht

theorem isIpv6Char_of_parseSegments {texts : List (List Char)}
    (h : parseSegments texts = some segments) :
    ∀ text ∈ texts, ∀ c ∈ text, isIpv6Char c = true := by
  induction texts using parseSegments.induct generalizing segments with
  | case1 => exact fun text htext => nomatch htext
  | case2 last s hs =>
    intro text htext
    obtain rfl := List.mem_singleton.mp htext
    exact isIpv6Char_of_parseSegment hs
  | case3 last hlast =>
    intro text htext
    obtain rfl := List.mem_singleton.mp htext
    unfold parseSegments at h
    rw [hlast] at h
    obtain ⟨ip, hip, -⟩ := Option.map_eq_some_iff.mp h
    exact isIpv6Char_of_parseIpv4 hip
  | case4 text texts hne ih =>
    rw [parseSegments.eq_3 text texts hne] at h
    simp only [Option.bind_eq_bind, Option.bind_eq_some_iff] at h
    obtain ⟨s, hs, rest, hrest, -⟩ := h
    intro t ht
    rcases List.mem_cons.mp ht with rfl | ht
    · exact isIpv6Char_of_parseSegment hs
    · exact ih hrest t ht

theorem isIpv6Char_of_splitOn
    (h : ∀ text ∈ cs.splitOn ':', ∀ c ∈ text, isIpv6Char c = true) :
    ∀ c ∈ cs, isIpv6Char c = true := by
  intro c hc
  rcases mem_splitOn ':' hc with rfl | ⟨text, htext, hin⟩
  · rfl
  · exact h text htext c hin

theorem isIpv6Char_of_parseSide {parse : List (List Char) → Option (List (BitVec 16))}
    (hparse : ∀ {texts segments}, parse texts = some segments →
      ∀ text ∈ texts, ∀ c ∈ text, isIpv6Char c = true) (h :
      parseSide parse cs = some segments) :
    ∀ c ∈ cs, isIpv6Char c = true := by
  unfold parseSide at h
  split_ifs at h with hcs
  · rw [hcs]
    intro c hc
    exact absurd hc List.not_mem_nil
  · exact isIpv6Char_of_splitOn (hparse h)

theorem isIpv6Char_of_parseIpv6 {ip : Ipv6Addr} (h : parseIpv6 cs = some ip) :
    ∀ c ∈ cs, isIpv6Char c = true := by
  unfold parseIpv6 at h
  cases hsplit : splitOnceStr "::".toList cs with
  | some parts =>
    obtain ⟨before, after⟩ := parts
    rw [hsplit] at h
    simp only [Option.bind_eq_bind, Option.bind_eq_some_iff] at h
    obtain ⟨head, hhead, tail, htail, -⟩ := h
    rw [eq_of_splitOnceStr hsplit]
    intro c hc
    rw [List.mem_append, List.mem_append] at hc
    rcases hc with hc | hc | hc
    · exact isIpv6Char_of_parseSide isIpv6Char_of_mapM hhead c hc
    · simp only [String.reduceToList, List.mem_cons, List.not_mem_nil, or_false, or_self] at hc
      rw [hc]
      rfl
    · exact isIpv6Char_of_parseSide isIpv6Char_of_parseSegments htail c hc
  | none =>
    rw [hsplit] at h
    simp only [Option.bind_eq_bind, Option.bind_eq_some_iff] at h
    obtain ⟨segments, hsegments, -⟩ := h
    exact isIpv6Char_of_splitOn (isIpv6Char_of_parseSegments hsegments)

theorem isHost_of_ipv6Text (ip : Ipv6Addr) : IsHost ('[' :: (ipv6Text ip ++ [']'])) where
  ne_nil := nofun
  plain := by
    intro c hc
    rw [List.mem_cons, List.mem_append, List.mem_singleton] at hc
    rcases hc with rfl | hc | rfl
    · rfl
    · exact (isPlain_of_isIpv6Char (isIpv6Char_of_mem_ipv6Text hc)).1
    · rfl
  shape := .inl ⟨ipv6Text ip, rfl,
    fun hc => (isPlain_of_isIpv6Char (isIpv6Char_of_mem_ipv6Text hc)).2.1 rfl,
    fun hc => (isPlain_of_isIpv6Char (isIpv6Char_of_mem_ipv6Text hc)).2.2 rfl⟩

theorem isHost_of_not_isForbiddenDomain {domain : List Char} (hne : domain ≠ [])
    (h : domain.any isForbiddenDomain = false) : IsHost domain := by
  have hallowed (c : Char) (hc : c ∈ domain) : isForbiddenDomain c = false :=
    Bool.eq_false_iff.mpr (List.any_eq_false.mp h c hc)
  refine ⟨hne, fun c hc => ?_, .inr ⟨?_, ?_, ?_⟩⟩
  · have hc := hallowed c hc
    unfold isForbiddenDomain at hc
    simp only [Bool.or_eq_false_iff, decide_eq_false_iff_not, beq_eq_false_iff_ne] at hc
    rw [isPlain_iff]
    refine ⟨by omega, ?_, ?_, ?_, ?_, ?_⟩ <;> tauto
  · exact fun hc => nomatch hallowed _ hc
  · exact fun hc => nomatch hallowed _ hc
  · exact fun hc => nomatch hallowed _ hc

theorem isForbiddenDomain_of_isDigit (h : c.isDigit = true) : isForbiddenDomain c = false := by
  have hne (b : Char) (hb : b.isDigit = false) : (c == b) = false := by
    rw [beq_eq_false_iff_ne]
    rintro rfl
    rw [h] at hb
    cases hb
  have hrange : 0x20 < c.toNat ∧ c.toNat < 0x7f := by
    unfold Char.isDigit at h
    rw [Bool.and_eq_true, decide_eq_true_eq, decide_eq_true_eq] at h
    exact ⟨Nat.lt_of_lt_of_le (by decide) h.1, Nat.lt_of_le_of_lt h.2 (by decide)⟩
  have hlow : decide (c.toNat ≤ 0x20) = false := decide_eq_false (by omega)
  have hdel : (c.toNat == 0x7f) = false := beq_eq_false_iff_ne.mpr (by omega)
  unfold isForbiddenDomain
  rw [hlow, hdel, hne '#' rfl, hne '/' rfl, hne ':' rfl, hne '<' rfl, hne '>' rfl, hne '?' rfl,
    hne '@' rfl, hne '[' rfl, hne '\\' rfl, hne ']' rfl, hne '^' rfl, hne '|' rfl, hne '%' rfl]
  rfl

theorem isHost_of_ipv4Text (ip : Ipv4Addr) : IsHost (ipv4Text ip) := by
  apply isHost_of_not_isForbiddenDomain
  · unfold ipv4Text
    rw [show List.range 4 = [0, 1, 2, 3] from rfl, List.map_cons, List.map_cons, List.intercalate,
      List.intersperse_cons_cons, List.flatten_cons, List.flatten_cons]
    exact List.append_ne_nil_of_right_ne_nil _ 
      (List.append_ne_nil_of_left_ne_nil (List.cons_ne_nil _ _) _)
  · rw [List.any_eq_false]
    intro c hc
    rcases mem_intercalate hc with hdot | ⟨text, htext, hin⟩
    · rw [List.mem_singleton.mp hdot]
      decide
    · obtain ⟨i, -, rfl⟩ := List.mem_map.mp htext
      rw [isForbiddenDomain_of_isDigit (isDigit_of_mem_toDigits hin)]
      exact Bool.false_ne_true

/-- **The form of a host.** What the host parser returns has no character that ends a host in a URL,
but for the colons of an address in brackets. -/
theorem isHost_of_hostParser {domainToAscii : List UInt8 → Option (List Char)}
    {text host : List Char} (h : hostParser domainToAscii text = some host) : IsHost host := by
  unfold hostParser at h
  split at h
  · split_ifs at h
    obtain ⟨ip, -, rfl⟩ := Option.map_eq_some_iff.mp h
    exact isHost_of_ipv6Text ip
  · simp only [Option.bind_eq_bind, Option.bind_eq_some_iff] at h
    obtain ⟨domain, -, h⟩ := h
    split_ifs at h with hbad hnumber
    · obtain ⟨ip, -, rfl⟩ := Option.map_eq_some_iff.mp h
      exact isHost_of_ipv4Text ip
    · obtain rfl := Option.some.inj h
      rw [not_or] at hbad
      exact isHost_of_not_isForbiddenDomain hbad.1 (Bool.eq_false_iff.mpr hbad.2)

end LibreFang.Net
