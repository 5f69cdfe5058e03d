import LibreFang.Net.Address

/-!
# The check against requests to internal addresses

* `extractHost`, `hostnameOf`: the host of a URL.
* `cidrContains`, `isHostAllowed`: the list of allowed hosts.
* `checkSsrf`: the check; its answer carries the addresses the request is pinned to.
* **`checkSsrf_eq_ok_iff`**: what it accepts.
-/

namespace LibreFang.Net

open Text

/-- `SocketAddr`. -/
structure SocketAddr where
  ip : IpAddr
  port : ℕ
  deriving DecidableEq, Repr

/-- `SsrfResolution`. -/
structure SsrfResolution where
  hostname : List Char
  resolved : List SocketAddr
  deriving DecidableEq, Repr

/-- `ToSocketAddrs` of a host and port: what the resolver of the system answers. -/
abbrev Resolver := String → Except String (List SocketAddr)

/-! ## The host of a URL -/

/-- `starts_with("https")`. -/
def isHttps (url : List Char) : Bool := "https".toList.isPrefixOf url

/-- The part after the first `://`, up to the next one. -/
def afterScheme (url : List Char) : Option (List Char) :=
  (splitOnceStr "://".toList url).map fun parts =>
    (splitOnceStr "://".toList parts.2).elim parts.2 (·.1)

/-- A host with the port that the scheme stands for. -/
def withDefaultPort (url host : List Char) : List Char :=
  host ++ if isHttps url then ":443".toList else ":80".toList

/-- `extract_host`. -/
def extractHost (url : List Char) : List Char :=
  match afterScheme url with
  | none => url
  | some afterScheme =>
    let hostPort := afterScheme.takeWhile (· != '/')
    match hostPort with
    | '[' :: _ =>
      if ']' ∈ hostPort then
        let ipv6Host := hostPort.takeWhile (· != ']') ++ [']']
        match hostPort.drop ipv6Host.length with
        | ':' :: port => ipv6Host ++ ':' :: port
        | _ => withDefaultPort url ipv6Host
      else if ':' ∈ hostPort then hostPort
      else withDefaultPort url hostPort
    | _ => if ':' ∈ hostPort then hostPort else withDefaultPort url hostPort

/-- The hostname that `check_ssrf` takes from the host. -/
def hostnameOf (host : List Char) : List Char :=
  match host with
  | '[' :: _ => if ']' ∈ host then host.takeWhile (· != ']') ++ [']'] else host
  | _ => host.takeWhile (· != ':')

/-- `cidr_contains`; `none` is an error. -/
def cidrContains (cidr : List Char) (ip : IpAddr) : Option Bool := do
  let (addrStr, prefixStr) ← splitOnceStr "/".toList cidr
  let prefixLen ← parseU32 prefixStr
  match parseIp addrStr, ip with
  | some (.v4 netAddr), .v4 v4 =>
    if 32 < prefixLen then none
    else
      let mask : BitVec 32 := if prefixLen = 0 then 0 else BitVec.allOnes 32 <<< (32 - prefixLen)
      some (netAddr &&& mask == v4 &&& mask)
  | some (.v6 netAddr), .v6 v6 =>
    if 128 < prefixLen then none
    else
      let mask : BitVec 128 := if prefixLen = 0 then 0 else BitVec.allOnes 128 <<< (128 - prefixLen)
      some (netAddr &&& mask == v6 &&& mask)
  | _, _ => some false

/-- `str::eq_ignore_ascii_case`. -/
def eqIgnoreAsciiCase (s t : List Char) : Bool := s.map Char.toLower == t.map Char.toLower

/-- One round of the loop of `is_host_allowed`. -/
def entryAllows (hostname : List Char) (ip : IpAddr) (entry : List Char) : Bool :=
  let entry := trim entry
  if entry.isEmpty then false
  else if '/' ∈ entry then cidrContains entry ip == some true
  else
    match entry with
    | '*' :: suffix => !suffix.isEmpty && suffix.isSuffixOf hostname
    | _ =>
      match parseIp entry with
      | some entryIp => entryIp == ip
      | none => eqIgnoreAsciiCase entry hostname

/-- `is_host_allowed`. -/
def isHostAllowed (hostname : List Char) (ip : IpAddr) (allowedHosts : List String) : Bool :=
  allowedHosts.any fun entry => entryAllows hostname ip entry.toList

/-! ## The check -/

/-- The hostnames that are always blocked. -/
def blockedHostnames : List String :=
  ["localhost", "ip6-localhost", "metadata.google.internal", "metadata.aws.internal",
    "instance-data", "169.254.169.254", "100.100.100.200", "192.0.0.192", "0.0.0.0", "::1", "[::1]"]

/-- The addresses that `check_ssrf` accepts only if they are allowed. -/
def isInternal (ip : IpAddr) : Bool := ip.isLoopback || ip.isUnspecified || isPrivateIp ip

/-- The loop of `check_ssrf` over the addresses. -/
def checkAddrs (hostname : List Char) (allowedHosts : List String) (resolved : List SocketAddr) :
    List SocketAddr → Except String (List SocketAddr)
  | [] => .ok resolved
  | addr :: addrs =>
    let ip := canonicalIp addr.ip
    if isInternal ip then
      if !isCloudMetadataIp ip && isHostAllowed hostname ip allowedHosts then
        checkAddrs hostname allowedHosts (resolved ++ [addr]) addrs
      else
        .error s!"SSRF blocked: {String.ofList hostname} resolves to private IP {ip.text}"
    else checkAddrs hostname allowedHosts (resolved ++ [addr]) addrs

/-- The hostname of a URL. -/
def urlHostname (url : List Char) : List Char := hostnameOf (extractHost url)

/-- The host and port that are resolved. -/
def socketAddr (url : List Char) : String :=
  s!"{String.ofList (urlHostname url)}:{if isHttps url then 443 else 80}"

/-- The URL starts with `http://` or `https://`. -/
def isWebUrl (url : List Char) : Bool :=
  "http://".toList.isPrefixOf url || "https://".toList.isPrefixOf url

/-- `check_ssrf`. -/
def checkSsrf (resolve : Resolver) (url : String) (allowedHosts : List String) :
    Except String SsrfResolution :=
  if ¬ isWebUrl url.toList then
    .error "Only http:// and https:// URLs are allowed"
  else
    let hostname := urlHostname url.toList
    if String.ofList hostname ∈ blockedHostnames then
      .error s!"SSRF blocked: {String.ofList hostname} is a restricted hostname"
    else
      match resolve (socketAddr url.toList) with
      | .error e =>
        .error s!"SSRF blocked: DNS resolution failed for {String.ofList hostname}: {e}"
      | .ok addrs =>
        match checkAddrs hostname allowedHosts [] addrs with
        | .error e => .error e
        | .ok resolved =>
          if resolved.isEmpty then
            .error ("SSRF blocked: DNS resolution returned no addresses for " ++
              String.ofList hostname)
          else .ok ⟨hostname, resolved⟩

/-! ## What is accepted -/

/-- The check of one address. -/
def passes (hostname : List Char) (allowedHosts : List String) (addr : SocketAddr) : Bool :=
  let ip := canonicalIp addr.ip
  !isInternal ip || !isCloudMetadataIp ip && isHostAllowed hostname ip allowedHosts

theorem checkAddrs_eq_ok_iff {hostname : List Char} {allowedHosts : List String}
    {addrs resolved resolved' : List SocketAddr} :
    checkAddrs hostname allowedHosts resolved addrs = .ok resolved' ↔
      addrs.all (passes hostname allowedHosts) = true ∧ resolved' = resolved ++ addrs := by
  induction addrs generalizing resolved with
  | nil => simp [checkAddrs, eq_comm]
  | cons addr addrs ih =>
    unfold checkAddrs
    rw [List.all_cons, Bool.and_eq_true]
    unfold passes
    dsimp only
    cases isInternal (canonicalIp addr.ip) with
    | false => simp [ih, passes]
    | true =>
      cases !isCloudMetadataIp (canonicalIp addr.ip) &&
          isHostAllowed hostname (canonicalIp addr.ip) allowedHosts with
      | false => simp
      | true => simp [ih, passes]

/-- **What `check_ssrf` accepts.** The URL has a web scheme and no blocked hostname, and every
address of the answer, which is not empty, passes. -/
theorem checkSsrf_eq_ok_iff {resolve : Resolver} {url : String} {allowedHosts : List String}
    {resolution : SsrfResolution} :
    checkSsrf resolve url allowedHosts = .ok resolution ↔
      isWebUrl url.toList = true ∧
      String.ofList (urlHostname url.toList) ∉ blockedHostnames ∧
      resolve (socketAddr url.toList) = .ok resolution.resolved ∧ resolution.resolved ≠ [] ∧
      resolution.resolved.all (passes (urlHostname url.toList) allowedHosts) = true ∧
      resolution.hostname = urlHostname url.toList := by
  unfold checkSsrf
  dsimp only
  by_cases hscheme : isWebUrl url.toList = true
  · rw [if_neg (not_not_intro hscheme)]
    by_cases hblocked : String.ofList (urlHostname url.toList) ∈ blockedHostnames
    · rw [if_pos hblocked]
      exact ⟨nofun, fun h => absurd hblocked h.2.1⟩
    rw [if_neg hblocked]
    cases hanswer : resolve (socketAddr url.toList) with
    | error e => exact ⟨nofun, fun h => nomatch h.2.2.1⟩
    | ok addrs =>
      dsimp only
      cases hcheck : checkAddrs (urlHostname url.toList) allowedHosts [] addrs with
      | error e =>
        refine ⟨nofun, fun ⟨_, _, hsame, _, hall, _⟩ => ?_⟩
        obtain rfl := Except.ok.inj hsame
        rw [checkAddrs_eq_ok_iff.mpr ⟨hall, rfl⟩] at hcheck
        cases hcheck
      | ok resolved =>
        obtain ⟨hall, hsame⟩ := checkAddrs_eq_ok_iff.mp hcheck
        obtain rfl : resolved = addrs := hsame
        dsimp only
        cases resolved with
        | nil => exact ⟨nofun, fun ⟨_, _, hsame, hne, _⟩ => absurd (Except.ok.inj hsame).symm hne⟩
        | cons addr resolved =>
          rw [List.isEmpty_cons, if_neg Bool.false_ne_true]
          constructor
          · intro h
            obtain rfl := Except.ok.inj h
            exact ⟨hscheme, hblocked, rfl, nofun, hall, rfl⟩
          · rintro ⟨-, -, hsame, -, -, hname⟩
            rcases resolution with ⟨hostname, resolved⟩
            obtain rfl := hname
            obtain rfl := Except.ok.inj hsame
            rfl
  · rw [if_pos hscheme]
    exact ⟨nofun, fun h => absurd h.1 hscheme⟩

end LibreFang.Net
