import LibreFang.Lib.Blocks
import LibreFang.Lib.Text

/-!
# Network addresses

* `Ipv4Addr`, `Ipv6Addr`, `IpAddr`: addresses as numbers, with their octets and segments.
* `parseIpv4`, `parseIpv6`, `parseIp`: the texts of addresses; `ipv4Text`, `ipv6Text`, `IpAddr.text`.
* `isCloudMetadataIp`, `isPrivateIp`, `canonicalIp`: the tests on addresses.
* **`segment_and_iff`**, **`sameBlock_sixteen_iff`** and others: the blocks that they test.
-/

namespace LibreFang.Net

open Blocks Text

/-! ## Addresses -/

/-- `Ipv4Addr`. -/
abbrev Ipv4Addr := BitVec 32

/-- `Ipv6Addr`. -/
abbrev Ipv6Addr := BitVec 128

/-- `IpAddr`. -/
inductive IpAddr
  | v4 (ip : Ipv4Addr)
  | v6 (ip : Ipv6Addr)
  deriving DecidableEq, Repr

/-- `Ipv4Addr::new`. -/
def ipv4 (a b c d : BitVec 8) : Ipv4Addr := a ++ b ++ c ++ d

/-- One of the `Ipv4Addr::octets`. -/
def octet (ip : Ipv4Addr) (i : ℕ) : BitVec 8 := ip.extractLsb' (24 - 8 * i) 8

/-- One of the `Ipv6Addr::segments`. -/
def segment (ip : Ipv6Addr) (i : ℕ) : BitVec 16 := ip.extractLsb' (112 - 16 * i) 16

/-- The address of eight segments. -/
def ofSegments (segments : List (BitVec 16)) : Ipv6Addr :=
  segments.foldl (fun ip s => (ip <<< 16) ||| s.setWidth 128) 0

/-- `Ipv4Addr::is_loopback` and `Ipv6Addr::is_loopback`. -/
def IpAddr.isLoopback : IpAddr → Bool
  | .v4 ip => octet ip 0 == 127
  | .v6 ip => ip == 1

/-- `Ipv4Addr::is_unspecified` and `Ipv6Addr::is_unspecified`. -/
def IpAddr.isUnspecified : IpAddr → Bool
  | .v4 ip => ip == 0
  | .v6 ip => ip == 0

/-- `Ipv6Addr::to_ipv4_mapped`. -/
def toIpv4Mapped (ip : Ipv6Addr) : Option Ipv4Addr :=
  if segment ip 0 = 0 ∧ segment ip 1 = 0 ∧ segment ip 2 = 0 ∧ segment ip 3 = 0 ∧
      segment ip 4 = 0 ∧ segment ip 5 = 0xffff then some (segment ip 6 ++ segment ip 7)
  else none

/-! ## Texts of addresses -/

/-- The value of a digit of a radix up to 16. -/
def digitValue (c : Char) : ℕ :=
  if c.isDigit then c.toNat - '0'.toNat
  else if c.isUpper then c.toNat - 'A'.toNat + 10
  else c.toNat - 'a'.toNat + 10

/-- The number that digits stand for. -/
def ofDigits (radix : ℕ) (cs : List Char) : ℕ := cs.foldl (fun n c => radix * n + digitValue c) 0

/-- An octet in decimal, without leading zeros. -/
def parseOctet (cs : List Char) : Option (BitVec 8) :=
  if cs ≠ [] ∧ cs.length ≤ 3 ∧ cs.all Char.isDigit ∧ (cs.head? = some '0' → cs.length = 1) ∧
      ofDigits 10 cs < 256 then some (BitVec.ofNat 8 (ofDigits 10 cs))
  else none

/-- `Ipv4Addr::from_str`. -/
def parseIpv4 (cs : List Char) : Option Ipv4Addr :=
  match cs.splitOn '.' with
  | [a, b, c, d] => do some (ipv4 (← parseOctet a) (← parseOctet b) (← parseOctet c) (← parseOctet d))
  | _ => none

/-- A segment of up to four hexadecimal digits. -/
def parseSegment (cs : List Char) : Option (BitVec 16) :=
  if cs ≠ [] ∧ cs.length ≤ 4 ∧ cs.all isAsciiHexdigit then some (BitVec.ofNat 16 (ofDigits 16 cs))
  else none

/-- Segments between colons; the last two may be written as an IPv4 address. -/
def parseSegments : List (List Char) → Option (List (BitVec 16))
  | [] => some []
  | [last] =>
    match parseSegment last with
    | some s => some [s]
    | none => (parseIpv4 last).map fun ip => [ip.extractLsb' 16 16, ip.extractLsb' 0 16]
  | s :: rest => do
    let s ← parseSegment s
    some (s :: (← parseSegments rest))

/-- What stands on one side of `::`, which may be nothing. -/
def parseSide (parse : List (List Char) → Option (List (BitVec 16))) (cs : List Char) :
    Option (List (BitVec 16)) :=
  if cs = [] then some [] else parse (cs.splitOn ':')

/-- `Ipv6Addr::from_str`: eight segments, or fewer around one `::`. -/
def parseIpv6 (cs : List Char) : Option Ipv6Addr :=
  match splitOnceStr "::".toList cs with
  | some (head, tail) => do
    let head ← parseSide (·.mapM parseSegment) head
    let tail ← parseSide parseSegments tail
    if head.length + tail.length ≤ 7 then
      some (ofSegments (head ++ List.replicate (8 - head.length - tail.length) 0 ++ tail))
    else none
  | none => do
    let segments ← parseSegments (cs.splitOn ':')
    if segments.length = 8 then some (ofSegments segments) else none

/-- `IpAddr::from_str`. -/
def parseIp (cs : List Char) : Option IpAddr :=
  match parseIpv4 cs with
  | some ip => some (.v4 ip)
  | none => (parseIpv6 cs).map .v6

/-- `Ipv4Addr` as text. -/
def ipv4Text (ip : Ipv4Addr) : List Char :=
  List.intercalate ['.'] ((List.range 4).map fun i => Nat.toDigits 10 (octet ip i).toNat)

/-- Where the first of the longest runs of zeros begins, and how long it is. -/
def longestZeros (i : ℕ) : List (BitVec 16) → ℕ × ℕ
  | [] => (i, 0)
  | s :: rest =>
    let here := ((s :: rest).takeWhile (· == 0)).length
    let later := longestZeros (i + 1) rest
    if later.2 ≤ here then (i, here) else later

/-- Segments in hexadecimal, with colons between them. -/
def segmentsText (segments : List (BitVec 16)) : List Char :=
  List.intercalate [':'] (segments.map fun s => Nat.toDigits 16 s.toNat)

/-- The segments of an `Ipv6Addr` as text; a run of at least two zeros is written as `::`. -/
def ipv6Text (ip : Ipv6Addr) : List Char :=
  let segments := (List.range 8).map (segment ip)
  let (start, len) := longestZeros 0 segments
  if 2 ≤ len then
    segmentsText (segments.take start) ++ [':', ':'] ++ segmentsText (segments.drop (start + len))
  else segmentsText segments

/-- `IpAddr` as text; a mapped IPv4 address stays in decimal. -/
def IpAddr.text : IpAddr → String
  | .v4 ip => String.ofList (ipv4Text ip)
  | .v6 ip =>
    match toIpv4Mapped ip with
    | some mapped => String.ofList ("::ffff:".toList ++ ipv4Text mapped)
    | none => String.ofList (ipv6Text ip)

/-- `extract_nat64_well_known`. -/
def extractNat64WellKnown (ip : Ipv6Addr) : Option Ipv4Addr :=
  if segment ip 0 ≠ 0x0064 ∨ segment ip 1 ≠ 0xff9b ∨ segment ip 2 ≠ 0 ∨ segment ip 3 ≠ 0 ∨
      segment ip 4 ≠ 0 ∨ segment ip 5 ≠ 0 then none
  else
    some (ipv4 ((segment ip 6 >>> 8).setWidth 8) ((segment ip 6 &&& 0xff).setWidth 8)
      ((segment ip 7 >>> 8).setWidth 8) ((segment ip 7 &&& 0xff).setWidth 8))

/-- `canonical_ip`. -/
def canonicalIp : IpAddr → IpAddr
  | .v6 ip =>
    match toIpv4Mapped ip with
    | some v4 => .v4 v4
    | none =>
      match extractNat64WellKnown ip with
      | some v4 => .v4 v4
      | none => .v6 ip
  | .v4 ip => .v4 ip

/-- `is_cloud_metadata_ip`. -/
def isCloudMetadataIp (ip : IpAddr) : Bool :=
  match canonicalIp ip with
  | .v4 ip => octet ip 0 == 169 && octet ip 1 == 254 || octet ip 0 == 100 && octet ip 1 &&& 0xC0 == 64
  | .v6 _ => false

/-- `is_private_ip`. -/
def isPrivateIp (ip : IpAddr) : Bool :=
  match canonicalIp ip with
  | .v4 ip =>
    octet ip 0 == 10 || octet ip 0 == 172 && 16 ≤ octet ip 1 && octet ip 1 ≤ 31 ||
      octet ip 0 == 192 && octet ip 1 == 168 || octet ip 0 == 169 && octet ip 1 == 254
  | .v6 ip => segment ip 0 &&& 0xfe00 == 0xfc00 || segment ip 0 &&& 0xffc0 == 0xfe80

/-! ## The blocks -/

theorem toNat_octet (ip : Ipv4Addr) (i : ℕ) :
    (octet ip i).toNat = ip.toNat / 2 ^ (24 - 8 * i) % 256 := by
  unfold octet
  rw [BitVec.extractLsb'_toNat, Nat.shiftRight_eq_div_pow]

theorem segment_zero (ip : Ipv6Addr) : segment ip 0 = lead 16 ip := by
  apply BitVec.eq_of_toNat_eq
  rw [toNat_lead (by decide)]
  unfold segment
  rw [BitVec.extractLsb'_toNat, Nat.shiftRight_eq_div_pow]
  exact Nat.mod_eq_of_lt (by have := ip.isLt; omega)

theorem segment_and_iff {len : ℕ} {m value : BitVec 16} (hlen : len ≤ 16) (hmask : m = mask 16 len)
    (hvalue : value &&& m = value) (ip : Ipv6Addr) :
    segment ip 0 &&& m = value ↔ SameBlock len ip (value ++ (0 : BitVec 112)) := by
  have hlead : lead 16 (value ++ (0 : BitVec 112)) = value := by
    apply BitVec.eq_of_toNat_eq
    rw [toNat_lead (by decide), BitVec.toNat_append]
    simp [Nat.shiftLeft_eq]
  rw [← sameBlock_lead hlen (by decide), hlead, ← segment_zero, and_eq_iff_sameBlock hmask hvalue]

theorem sameBlock_eight_iff (ip net : Ipv4Addr) :
    SameBlock 8 ip net ↔ octet ip 0 = octet net 0 := by
  rw [sameBlock_iff_toNat, ← BitVec.toNat_inj, toNat_octet, toNat_octet]
  have := ip.isLt
  have := net.isLt
  omega

theorem sameBlock_sixteen_iff (ip net : Ipv4Addr) :
    SameBlock 16 ip net ↔ octet ip 0 = octet net 0 ∧ octet ip 1 = octet net 1 := by
  rw [sameBlock_iff_toNat, ← BitVec.toNat_inj, ← BitVec.toNat_inj, toNat_octet, toNat_octet,
    toNat_octet, toNat_octet]
  have := ip.isLt
  have := net.isLt
  omega

theorem sameBlock_twelve_iff (ip : Ipv4Addr) :
    SameBlock 12 ip (ipv4 172 16 0 0) ↔
      octet ip 0 = 172 ∧ 16 ≤ octet ip 1 ∧ octet ip 1 ≤ 31 := by
  have hnet : (ipv4 172 16 0 0).toNat = 2886729728 := by decide
  rw [sameBlock_iff_toNat, hnet, ← BitVec.toNat_inj, BitVec.le_def, BitVec.le_def, toNat_octet,
    toNat_octet, show (172 : BitVec 8).toNat = 172 from rfl, show (16 : BitVec 8).toNat = 16 from rfl,
    show (31 : BitVec 8).toNat = 31 from rfl]
  have := ip.isLt
  omega

theorem sameBlock_ten_iff (ip : Ipv4Addr) :
    SameBlock 10 ip (ipv4 100 64 0 0) ↔ octet ip 0 = 100 ∧ octet ip 1 &&& 0xC0 = 64 := by
  have hnet : (ipv4 100 64 0 0).toNat = 1681915904 := by decide
  have hmask : (0xC0 : BitVec 8) = mask 8 2 := by decide
  rw [and_eq_iff_sameBlock hmask (by decide), sameBlock_iff_toNat, sameBlock_iff_toNat, hnet,
    ← BitVec.toNat_inj, toNat_octet, toNat_octet, show (100 : BitVec 8).toNat = 100 from rfl,
    show (64 : BitVec 8).toNat = 64 from rfl]
  have := ip.isLt
  omega

end LibreFang.Net
