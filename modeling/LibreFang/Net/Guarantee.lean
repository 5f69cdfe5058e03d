import LibreFang.Net.Ssrf

/-!
# Which addresses pass the check

* `unwrap`: the address a connection reaches, by the blocks of mapped and translated addresses;
  `canonicalIp_eq`: the code computes it.
* `Metadata`, `Internal`: the blocks of the guarantee; `Covers`: an entry of the allowed hosts.
* `Guaranteed`: no answer is in a metadata block, and internal answers are allowed.
* **`checkSsrf_guaranteed_iff`**: this holds unless an answer that passes is in `100.64.0.0/10`.
-/

namespace LibreFang.Net

open Blocks Text

/-! ## The blocks of the guarantee -/

/-- IPv4-mapped addresses, `::ffff:0:0/96`. -/
def Mapped (ip : Ipv6Addr) : Prop := SameBlock 96 ip (ofSegments [0, 0, 0, 0, 0, 0xffff, 0, 0])

/-- Addresses under the well-known prefix of NAT64, `64:ff9b::/96`. -/
def Nat64 (ip : Ipv6Addr) : Prop := SameBlock 96 ip (ofSegments [0x64, 0xff9b, 0, 0, 0, 0, 0, 0])

instance : DecidablePred Mapped := fun ip => inferInstanceAs (Decidable (SameBlock 96 ip _))

instance : DecidablePred Nat64 := fun ip => inferInstanceAs (Decidable (SameBlock 96 ip _))

/-- The address that a connection reaches. -/
def unwrap : IpAddr → IpAddr
  | .v4 ip => .v4 ip
  | .v6 ip => if Mapped ip ∨ Nat64 ip then .v4 (ip.setWidth 32) else .v6 ip

/-- `169.254.0.0/16`. -/
def LinkLocal (ip : Ipv4Addr) : Prop := SameBlock 16 ip (ipv4 169 254 0 0)

/-- `100.64.0.0/10`. -/
def SharedSpace (ip : Ipv4Addr) : Prop := SameBlock 10 ip (ipv4 100 64 0 0)

/-- `10.0.0.0/8`, `172.16.0.0/12` and `192.168.0.0/16`. -/
def Rfc1918 (ip : Ipv4Addr) : Prop :=
  SameBlock 8 ip (ipv4 10 0 0 0) ∨ SameBlock 12 ip (ipv4 172 16 0 0) ∨
    SameBlock 16 ip (ipv4 192 168 0 0)

/-- The metadata blocks, which no entry may open. -/
def Metadata : IpAddr → Prop
  | .v4 ip => LinkLocal ip ∨ SharedSpace ip
  | .v6 _ => False

/-- Loopback, unspecified and private addresses. -/
def Internal : IpAddr → Prop
  | .v4 ip => SameBlock 8 ip (ipv4 127 0 0 0) ∨ ip = ipv4 0 0 0 0 ∨ Rfc1918 ip
  | .v6 ip => ip = ofSegments [0, 0, 0, 0, 0, 0, 0, 1] ∨ ip = ofSegments [0, 0, 0, 0, 0, 0, 0, 0] ∨
      SameBlock 7 ip (ofSegments [0xfc00, 0, 0, 0, 0, 0, 0, 0]) ∨
      SameBlock 10 ip (ofSegments [0xfe80, 0, 0, 0, 0, 0, 0, 0])

/-- An entry of the allowed hosts covers a hostname and its address. -/
inductive Covers (hostname : List Char) : IpAddr → List Char → Prop
  | cidr4 {addr prefixText : List Char} {net ip : Ipv4Addr} {len : ℕ}
      (hnet : parseIp addr = some (.v4 net)) (hlen : parseU32 prefixText = some len)
      (hle : len ≤ 32) (hblock : SameBlock len ip net) :
      Covers hostname (.v4 ip) (addr ++ '/' :: prefixText)
  | cidr6 {addr prefixText : List Char} {net ip : Ipv6Addr} {len : ℕ}
      (hnet : parseIp addr = some (.v6 net)) (hlen : parseU32 prefixText = some len)
      (hle : len ≤ 128) (hblock : SameBlock len ip net) :
      Covers hostname (.v6 ip) (addr ++ '/' :: prefixText)
  | pattern {ip : IpAddr} {suffix : List Char} (hne : suffix ≠ []) (hend : suffix <:+ hostname) :
      Covers hostname ip ('*' :: suffix)
  | address {ip : IpAddr} {entry : List Char} (hip : parseIp entry = some ip) :
      Covers hostname ip entry
  | name {ip : IpAddr} {entry : List Char} (hname : eqIgnoreAsciiCase entry hostname = true) :
      Covers hostname ip entry

/-- **The guarantee.** -/
structure Guaranteed (allowedHosts : List String) (resolution : SsrfResolution) : Prop where
  metadata : ∀ addr ∈ resolution.resolved, ¬ Metadata (unwrap addr.ip)
  internal : ∀ addr ∈ resolution.resolved, Internal (unwrap addr.ip) →
    ∃ entry ∈ allowedHosts, Covers resolution.hostname (unwrap addr.ip) (trim entry.toList)

/-- An answer that the check lets through has no address in `100.64.0.0/10`. -/
def Clear (resolve : Resolver) (url : String) (allowedHosts : List String) : Prop :=
  ∀ addrs, resolve (socketAddr url.toList) = .ok addrs →
    isWebUrl url.toList = true → String.ofList (urlHostname url.toList) ∉ blockedHostnames →
    addrs.all (passes (urlHostname url.toList) allowedHosts) = true →
    ∀ addr ∈ addrs, ∀ ip, unwrap addr.ip = .v4 ip → ¬ SharedSpace ip

/-! ## The tests of the code -/

theorem getLsbD_segment (ip : Ipv6Addr) (i k : ℕ) (hk : k < 16) :
    (segment ip i).getLsbD k = ip.getLsbD (112 - 16 * i + k) := by
  unfold segment
  rw [BitVec.getLsbD_extractLsb', decide_eq_true hk, Bool.true_and]

theorem sameBlock_ninetySix_iff (ip net : Ipv6Addr) :
    SameBlock 96 ip net ↔ ∀ i < 6, segment ip i = segment net i := by
  constructor
  · intro h i hi
    apply BitVec.eq_of_getLsbD_eq
    intro k hk
    have hbit := congrArg (BitVec.getLsbD · (80 - 16 * i + k)) h
    rw [BitVec.getLsbD_ushiftRight, BitVec.getLsbD_ushiftRight,
      show 128 - 96 + (80 - 16 * i + k) = 112 - 16 * i + k by omega] at hbit
    rw [getLsbD_segment ip i k hk, getLsbD_segment net i k hk, hbit]
  · intro h
    apply BitVec.eq_of_getLsbD_eq
    intro k hk
    rw [BitVec.getLsbD_ushiftRight, BitVec.getLsbD_ushiftRight]
    by_cases hin : k < 96
    · -- the bit is in the segment that begins `16 * (5 - k / 16)` bits after the first
      have hbit := congrArg (BitVec.getLsbD · (k % 16)) (h (5 - k / 16) (by omega))
      rw [getLsbD_segment ip _ _ (Nat.mod_lt k (by decide)),
        getLsbD_segment net _ _ (Nat.mod_lt k (by decide)),
        show 112 - 16 * (5 - k / 16) + k % 16 = 128 - 96 + k by omega] at hbit
      exact hbit
    · rw [BitVec.getLsbD_of_ge ip _ (by omega), BitVec.getLsbD_of_ge net _ (by omega)]

theorem append_segments (ip : Ipv6Addr) : segment ip 6 ++ segment ip 7 = ip.setWidth 32 := by
  apply BitVec.eq_of_getLsbD_eq
  intro k hk
  rw [BitVec.getLsbD_append, BitVec.getLsbD_setWidth, decide_eq_true hk, Bool.true_and]
  by_cases hlow : k < 16
  · rw [if_pos hlow, getLsbD_segment ip 7 k hlow]
    simp
  · rw [if_neg hlow, getLsbD_segment ip 6 (k - 16) (by omega)]
    congr 1
    omega

theorem ipv4_octets (hi lo : BitVec 16) :
    ipv4 ((hi >>> 8).setWidth 8) ((hi &&& 0xff).setWidth 8) ((lo >>> 8).setWidth 8)
      ((lo &&& 0xff).setWidth 8) = hi ++ lo := by
  have hff : ∀ k < 8, (0xff : BitVec 16).getLsbD k = true := by decide
  have hsplit (x : BitVec 16) : (x >>> 8).setWidth 8 ++ (x &&& 0xff).setWidth 8 = x := by
    apply BitVec.eq_of_getLsbD_eq
    intro k hk
    rw [BitVec.getLsbD_append, BitVec.getLsbD_setWidth, BitVec.getLsbD_setWidth,
      BitVec.getLsbD_ushiftRight, BitVec.getLsbD_and]
    by_cases hlow : k < 8
    · rw [if_pos hlow, decide_eq_true hlow, hff k hlow, Bool.true_and, Bool.and_true]
    · rw [if_neg hlow, decide_eq_true (by omega), Bool.true_and, show 8 + (k - 8) = k by omega]
  unfold ipv4
  rw [BitVec.append_assoc, hsplit, hsplit]
  rfl

theorem sameBlock_ninetySix_iff_and (ip net : Ipv6Addr) :
    SameBlock 96 ip net ↔ segment ip 0 = segment net 0 ∧ segment ip 1 = segment net 1 ∧
      segment ip 2 = segment net 2 ∧ segment ip 3 = segment net 3 ∧ segment ip 4 = segment net 4 ∧
      segment ip 5 = segment net 5 := by
  rw [sameBlock_ninetySix_iff]
  simp only [Nat.forall_lt_succ_right, Nat.not_lt_zero, IsEmpty.forall_iff, implies_true, true_and,
    and_assoc]

theorem mapped_iff (ip : Ipv6Addr) :
    Mapped ip ↔ segment ip 0 = 0 ∧ segment ip 1 = 0 ∧ segment ip 2 = 0 ∧ segment ip 3 = 0 ∧
      segment ip 4 = 0 ∧ segment ip 5 = 0xffff :=
  sameBlock_ninetySix_iff_and ip _

theorem nat64_iff (ip : Ipv6Addr) :
    Nat64 ip ↔ segment ip 0 = 0x0064 ∧ segment ip 1 = 0xff9b ∧ segment ip 2 = 0 ∧
      segment ip 3 = 0 ∧ segment ip 4 = 0 ∧ segment ip 5 = 0 :=
  sameBlock_ninetySix_iff_and ip _

theorem toIpv4Mapped_eq (ip : Ipv6Addr) :
    toIpv4Mapped ip = if Mapped ip then some (ip.setWidth 32) else none := by
  unfold toIpv4Mapped
  rw [append_segments]
  exact if_congr (mapped_iff ip).symm rfl rfl

theorem extractNat64WellKnown_eq (ip : Ipv6Addr) :
    extractNat64WellKnown ip = if Nat64 ip then some (ip.setWidth 32) else none := by
  unfold extractNat64WellKnown
  rw [ipv4_octets, append_segments, ← ite_not]
  refine if_congr ?_ rfl rfl
  rw [nat64_iff]
  simp only [not_or, not_not]

/-- **`canonical_ip` finds the address that a connection reaches.** -/
theorem canonicalIp_eq (ip : IpAddr) : canonicalIp ip = unwrap ip := by
  cases ip with
  | v4 ip => rfl
  | v6 ip =>
    unfold canonicalIp unwrap
    dsimp only
    rw [toIpv4Mapped_eq, extractNat64WellKnown_eq]
    by_cases hmapped : Mapped ip
    · rw [if_pos hmapped, if_pos (Or.inl hmapped)]
    · rw [if_neg hmapped]
      by_cases hnat64 : Nat64 ip
      · rw [if_pos hnat64, if_pos (Or.inr hnat64)]
      · rw [if_neg hnat64, if_neg (not_or.mpr ⟨hmapped, hnat64⟩)]

@[simp] theorem canonicalIp_unwrap (ip : IpAddr) : canonicalIp (unwrap ip) = unwrap ip := by
  rw [canonicalIp_eq]
  cases ip with
  | v4 ip => rfl
  | v6 ip =>
    by_cases h : Mapped ip ∨ Nat64 ip
    · have hv4 : unwrap (.v6 ip) = .v4 (ip.setWidth 32) := if_pos h
      rw [hv4]
      rfl
    · have hv6 : unwrap (.v6 ip) = .v6 ip := if_neg h
      rw [hv6, hv6]

theorem isCloudMetadataIp_unwrap_iff (ip : IpAddr) :
    isCloudMetadataIp (unwrap ip) = true ↔ Metadata (unwrap ip) := by
  unfold isCloudMetadataIp
  rw [canonicalIp_unwrap]
  cases unwrap ip with
  | v4 ip =>
    unfold Metadata LinkLocal SharedSpace
    dsimp only
    rw [sameBlock_sixteen_iff, sameBlock_ten_iff]
    simp only [Bool.or_eq_true, Bool.and_eq_true, beq_iff_eq]
    exact Iff.rfl
  | v6 ip => exact ⟨nofun, nofun⟩

theorem isInternal_unwrap_iff (ip : IpAddr) :
    isInternal (unwrap ip) = true ↔
      Internal (unwrap ip) ∨ ∃ v4, unwrap ip = .v4 v4 ∧ LinkLocal v4 := by
  unfold isInternal isPrivateIp
  rw [canonicalIp_unwrap]
  cases unwrap ip with
  | v4 ip =>
    unfold Internal Rfc1918 LinkLocal IpAddr.isLoopback IpAddr.isUnspecified
    dsimp only
    rw [sameBlock_eight_iff, sameBlock_eight_iff, sameBlock_twelve_iff, sameBlock_sixteen_iff]
    simp only [Bool.or_eq_true, Bool.and_eq_true, beq_iff_eq, decide_eq_true_eq, IpAddr.v4.injEq,
      exists_eq_left', sameBlock_sixteen_iff]
    simp only [or_assoc, and_assoc]
    exact Iff.rfl
  | v6 ip =>
    have hunique : segment ip 0 &&& 0xfe00 = 0xfc00 ↔
        SameBlock 7 ip (ofSegments [0xfc00, 0, 0, 0, 0, 0, 0, 0]) :=
      segment_and_iff (by decide) (by decide) (by decide) ip
    have hlink : segment ip 0 &&& 0xffc0 = 0xfe80 ↔
        SameBlock 10 ip (ofSegments [0xfe80, 0, 0, 0, 0, 0, 0, 0]) :=
      segment_and_iff (by decide) (by decide) (by decide) ip
    unfold Internal IpAddr.isLoopback IpAddr.isUnspecified
    dsimp only
    simp only [Bool.or_eq_true, beq_iff_eq, hunique, hlink, reduceCtorEq, false_and, exists_false,
      or_false, or_assoc]
    exact Iff.rfl

/-! ## The list of allowed hosts -/

theorem covers_of_cidrContains {hostname cidr : List Char} {ip : IpAddr}
    (h : cidrContains cidr ip = some true) : Covers hostname ip cidr := by
  unfold cidrContains at h
  rw [Option.bind_eq_bind, Option.bind_eq_some_iff] at h
  obtain ⟨⟨addr, prefixText⟩, hsplit, h⟩ := h
  dsimp only at h
  rw [Option.bind_eq_bind, Option.bind_eq_some_iff] at h
  obtain ⟨len, hlen, h⟩ := h
  have hcidr : cidr = addr ++ '/' :: prefixText := eq_of_splitOnceStr hsplit
  subst hcidr
  have hmask (w : ℕ) :
      (if len = 0 then 0 else BitVec.allOnes w <<< (w - len)) = Blocks.mask w len := by
    unfold Blocks.mask
    split_ifs with hzero
    · rw [hzero, Nat.sub_zero, BitVec.shiftLeft_eq_zero (Nat.le_refl w)]
      rfl
    · rfl
  cases hnet : parseIp addr with
  | none =>
    rw [hnet] at h
    cases h
  | some net =>
    rw [hnet] at h
    cases net with
    | v4 net =>
      cases ip with
      | v4 ip =>
        dsimp only at h
        by_cases hle : 32 < len
        · rw [if_pos hle] at h
          cases h
        · rw [if_neg hle, hmask, Option.some_inj, beq_iff_eq, ← sameBlock_iff_and_mask] at h
          exact .cidr4 hnet hlen (Nat.le_of_not_lt hle) h.symm
      | v6 ip => cases h
    | v6 net =>
      cases ip with
      | v4 ip => cases h
      | v6 ip =>
        dsimp only at h
        by_cases hle : 128 < len
        · rw [if_pos hle] at h
          cases h
        · rw [if_neg hle, hmask, Option.some_inj, beq_iff_eq, ← sameBlock_iff_and_mask] at h
          exact .cidr6 hnet hlen (Nat.le_of_not_lt hle) h.symm

theorem covers_of_entryAllows {hostname entry : List Char} {ip : IpAddr}
    (h : entryAllows hostname ip entry = true) : Covers hostname ip (trim entry) := by
  unfold entryAllows at h
  dsimp only at h
  cases hentry : trim entry with
  | nil => rw [hentry] at h; cases h
  | cons c rest =>
    rw [hentry, List.isEmpty_cons, if_neg Bool.false_ne_true] at h
    by_cases hslash : '/' ∈ c :: rest
    · rw [if_pos hslash, beq_iff_eq] at h
      exact covers_of_cidrContains h
    rw [if_neg hslash] at h
    by_cases hstar : c = '*'
    · subst hstar
      simp only [Bool.and_eq_true, Bool.not_eq_true', List.isEmpty_eq_false_iff,
        List.isSuffixOf_iff_suffix] at h
      exact .pattern h.1 h.2
    · split at h
      · rename_i heq
        cases heq
        exact absurd rfl hstar
      · cases hip : parseIp (c :: rest) with
        | some entryIp =>
          rw [hip] at h
          rw [beq_iff_eq.mp h] at hip
          exact .address hip
        | none =>
          rw [hip] at h
          exact .name h

variable {allowedHosts : List String} {hostname : List Char}

theorem covers_of_isHostAllowed {ip : IpAddr} (h : isHostAllowed hostname ip allowedHosts = true) :
    ∃ entry ∈ allowedHosts, Covers hostname ip (trim entry.toList) := by
  unfold isHostAllowed at h
  obtain ⟨entry, hmem, hallows⟩ := List.any_eq_true.mp h
  exact ⟨entry, hmem, covers_of_entryAllows hallows⟩

/-! ## The guarantee -/

theorem sharedSpace_of_passes
    {addr : SocketAddr} (h : passes hostname allowedHosts addr = true)
    (hmetadata : Metadata (unwrap addr.ip)) : ∃ ip, unwrap addr.ip = .v4 ip ∧ SharedSpace ip := by
  unfold passes at h
  dsimp only at h
  rw [canonicalIp_eq, (isCloudMetadataIp_unwrap_iff addr.ip).mpr hmetadata, Bool.not_true,
    Bool.false_and, Bool.or_false, Bool.not_eq_true', ← Bool.not_eq_true, isInternal_unwrap_iff,
    not_or] at h
  cases hip : unwrap addr.ip with
  | v4 ip =>
    rw [hip] at hmetadata
    exact ⟨ip, rfl, hmetadata.resolve_left fun hlocal => h.2 ⟨ip, hip, hlocal⟩⟩
  | v6 ip =>
    rw [hip] at hmetadata
    exact hmetadata.elim

theorem covers_of_passes {addr : SocketAddr}
    (h : passes hostname allowedHosts addr = true) (hinternal : Internal (unwrap addr.ip)) :
    ∃ entry ∈ allowedHosts, Covers hostname (unwrap addr.ip) (trim entry.toList) := by
  unfold passes at h
  dsimp only at h
  rw [canonicalIp_eq, (isInternal_unwrap_iff addr.ip).mpr (.inl hinternal), Bool.not_true,
    Bool.false_or, Bool.and_eq_true] at h
  exact covers_of_isHostAllowed h.2

/-- **Which answers keep the guarantee.** All that `check_ssrf` returns is as guaranteed if and only
if the answer, where it passes, has no address in `100.64.0.0/10`. -/
theorem checkSsrf_guaranteed_iff (resolve : Resolver) (url : String) (allowedHosts : List String) :
    (∀ resolution, checkSsrf resolve url allowedHosts = .ok resolution →
      Guaranteed allowedHosts resolution) ↔ Clear resolve url allowedHosts := by
  constructor
  · intro h addrs hanswer hweb hblocked hpass addr hmem ip hip hshared
    have hok : checkSsrf resolve url allowedHosts = .ok ⟨urlHostname url.toList, addrs⟩ :=
      checkSsrf_eq_ok_iff.mpr
        ⟨hweb, hblocked, hanswer, List.ne_nil_of_mem hmem, hpass, rfl⟩
    refine (h _ hok).metadata addr hmem ?_
    rw [hip]
    exact .inr hshared
  · intro hclear resolution hok
    obtain ⟨hweb, hblocked, hanswer, -, hpass, hname⟩ := checkSsrf_eq_ok_iff.mp hok
    have hall := List.all_eq_true.mp hpass
    refine ⟨fun addr hmem hmetadata => ?_, fun addr hmem hinternal => ?_⟩
    · obtain ⟨ip, hip, hshared⟩ := sharedSpace_of_passes (hall addr hmem) hmetadata
      exact hclear _ hanswer hweb hblocked hpass addr hmem ip hip hshared
    · rw [hname]
      exact covers_of_passes (hall addr hmem) hinternal

/-- A name whose address is in the shared address space of `100.64.0.0/10`. -/
def cgnatAnswer : Resolver := fun _ => .ok [⟨.v4 (ipv4 100 64 0 1), 80⟩]

theorem checkSsrf_sharedSpace :
    ¬ ∀ (resolve : Resolver) (url : String) (allowedHosts : List String) (resolution),
      checkSsrf resolve url allowedHosts = .ok resolution → Guaranteed allowedHosts resolution := by
  intro h
  have hok : checkSsrf cgnatAnswer "http://cgnat.example/" [] =
      .ok ⟨"cgnat.example".toList, [⟨.v4 (ipv4 100 64 0 1), 80⟩]⟩ := by
    decide +kernel
  exact (h _ _ _ _ hok).metadata _ (List.mem_singleton_self _) (Or.inr (show SameBlock 10 _ _ by decide))

end LibreFang.Net
