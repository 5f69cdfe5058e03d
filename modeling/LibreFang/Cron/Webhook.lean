import LibreFang.Cron.Job
import LibreFang.Net.Url
import LibreFang.Session.Lowercase

/-!
# Webhooks that point at the daemon

Delivery targets may not name the daemon's own host. The check cuts the host out of the text of the
URL; the client goes to the host that the URL standard finds.

* `PointsAtDaemon`: the hosts that are not allowed, in any notation.
* `PlainSpelling`: the URLs that the check refuses for their host; **`blocked_iff`**.
* **`deliveryTargets_safe_iff`**: an accepted webhook does not point at the daemon unless the client's
  host is such a one and the URL does not spell it plainly.
-/

namespace LibreFang.Cron

open Net Text

/-! ## Hosts that are not allowed -/

/-- The names of the daemon's host and of the metadata services. -/
def daemonNames : List (List Char) :=
  ["localhost".toList, "metadata".toList, "metadata.google.internal".toList,
    "metadata.aws.amazon.com".toList]

/-- A host without the dot at its end. -/
def withoutDot (host : List Char) : List Char :=
  if host.getLast? = some '.' then host.dropLast else host

/-- The address that a host stands for, if it is one. -/
def hostAddr : List Char → Option IpAddr
  | '[' :: rest => (parseIpv6 rest.dropLast).map .v6
  | host => (parseIpv4 host).map .v4

/-- `127.0.0.0/8` and `169.254.0.0/16`. -/
def isLocalIpv4 (ip : Ipv4Addr) : Bool :=
  octet ip 0 == 127 || octet ip 0 == 169 && octet ip 1 == 254

/-- A loopback or link-local address; a mapped address is the address that it maps. -/
def isLocalAddr : IpAddr → Bool
  | .v4 ip => isLocalIpv4 ip
  | .v6 ip =>
    match toIpv4Mapped ip with
    | some mapped => isLocalIpv4 mapped
    | none => ip == 1 || segment ip 0 &&& 0xffc0 == 0xfe80

/-- The host is one of the names, or a loopback or link-local address. -/
def PointsAtDaemon (host : List Char) : Prop :=
  withoutDot (host.map Char.toLower) ∈ daemonNames ∨ (hostAddr host).any isLocalAddr = true

instance (host : List Char) : Decidable (PointsAtDaemon host) :=
  inferInstanceAs (Decidable (_ ∨ _))

/-! ## Spellings that are refused -/

/-- Host and port, in lower case, begin with one of the two blocks of IPv4, or are one of the names,
or begin with `[fe80:` and have a closing bracket. -/
def PlainHost (h : List Char) : Prop :=
  "127.".toList <+: h ∨ "169.254.".toList <+: h ∨
    ("[fe80:".toList <+: h ∧ ']' ∈ h) ∨
    ∃ name ∈ daemonNames, h = name ∨ name ++ [':'] <+: h

/-- The text of host and port: behind the scheme and the last `@` before a path, query or fragment. -/
def hostAndPort (afterScheme : List Char) : List Char :=
  (afterScheme.takeWhile fun c => c != '/' && c != '?' && c != '#').rtakeWhile (· != '@')

/-- The URL spells its host plainly. -/
def PlainSpelling (url : List Char) : Prop :=
  ∃ scheme ∈ ["http://".toList, "https://".toList], ∃ afterScheme,
    url = scheme ++ afterScheme ∧ PlainHost ((hostAndPort afterScheme).map Char.toLower)

/-- The host that the check cuts out of a text. -/
def cutHost (hostPart : List Char) : Option String := do
  let host ←
    match hostPart with
    | '[' :: stripped =>
      if ']' ∈ stripped then some ('[' :: stripped.takeWhile (· != ']')) else none
    | _ => some (hostPart.takeWhile (· != ':'))
  if host = [] then none else some (String.ofList (host.map Char.toLower))

theorem extractUrlHost_append {url : String} {scheme afterScheme : List Char}
    (hscheme : scheme ∈ ["http://".toList, "https://".toList])
    (hurl : url.toList = scheme ++ afterScheme) :
    extractUrlHost url = cutHost (hostAndPort afterScheme) := by
  have hstrip : (stripPrefix? url.toList "http://".toList).or
      (stripPrefix? url.toList "https://".toList) = some afterScheme := by
    rw [hurl]
    unfold stripPrefix?
    rcases List.mem_cons.mp hscheme with rfl | hscheme
    · rw [if_pos (List.isPrefixOf_iff_prefix.mpr (List.prefix_append _ _)), List.drop_left]
      rfl
    · obtain rfl := List.mem_singleton.mp hscheme
      have hnot : ¬ "http://".toList.isPrefixOf ("https://".toList ++ afterScheme) = true := by
        rw [List.isPrefixOf_iff_prefix]
        rintro ⟨t, ht⟩
        exact absurd (congrArg (fun s : List Char => s[4]?) ht) (by simp)
      rw [if_neg hnot, if_pos (List.isPrefixOf_iff_prefix.mpr (List.prefix_append _ _)),
        List.drop_left]
      rfl
  unfold extractUrlHost
  rw [hstrip]
  rfl

/-! ## What the check refuses -/

theorem toLower_eq_iff {b c : Char}
    (hb : b.toNat < 65 ∨ 90 < b.toNat ∧ b.toNat < 97 ∨ 122 < b.toNat) : c.toLower = b ↔ c = b := by
  have hnat := Session.toNat_toLower c
  constructor
  · rintro rfl
    refine Char.toNat_inj.mp ?_
    split at hnat
    · omega
    · exact hnat.symm
  · rintro rfl
    refine Char.toNat_inj.mp ?_
    split at hnat
    · omega
    · exact hnat

theorem map_takeWhile_ne {b : Char}
    (hb : b.toNat < 65 ∨ 90 < b.toNat ∧ b.toNat < 97 ∨ 122 < b.toNat) (s : List Char) :
    (s.takeWhile (· != b)).map Char.toLower = (s.map Char.toLower).takeWhile (· != b) := by
  rw [List.takeWhile_map]
  congr 2
  funext c
  rw [Function.comp_apply, Bool.eq_iff_iff, bne_iff_ne, bne_iff_ne, ne_eq, ne_eq, toLower_eq_iff hb]

theorem prefix_takeWhile_iff {s t : List Char} {p : Char → Bool} (h : s.all p = true) :
    s <+: t.takeWhile p ↔ s <+: t := by
  constructor
  · exact fun hs => hs.trans (List.takeWhile_prefix p)
  · rintro ⟨u, rfl⟩
    rw [List.takeWhile_append_of_pos (List.all_eq_true.mp h)]
    exact List.prefix_append _ _

theorem takeWhile_ne_eq_iff {b : Char} {s t : List Char} (h : b ∉ s) :
    t.takeWhile (· != b) = s ↔ t = s ∨ s ++ [b] <+: t := by
  have hall : ∀ c ∈ s, (c != b) = true := by
    intro c hc
    rw [bne_iff_ne]
    rintro rfl
    exact h hc
  constructor
  · intro heq
    have hsplit := List.takeWhile_append_dropWhile (p := (· != b)) (l := t)
    cases hrest : t.dropWhile (· != b) with
    | nil =>
      rw [hrest, List.append_nil] at hsplit
      exact .inl (hsplit.symm.trans heq)
    | cons c rest =>
      have hc : c = b := by
        have hne : t.dropWhile (· != b) ≠ [] := by
          rw [hrest]
          exact List.cons_ne_nil _ _
        have hhead := List.head_dropWhile_not (· != b) hne
        simp only [hrest, List.head_cons, bne_eq_false_iff_eq] at hhead
        exact hhead
      rw [heq, hrest, hc] at hsplit
      refine .inr ⟨rest, ?_⟩
      rw [List.append_assoc, List.singleton_append]
      exact hsplit
  · rintro (rfl | ⟨u, rfl⟩)
    · exact List.takeWhile_eq_self_iff.mpr hall
    · rw [List.append_assoc, List.singleton_append, List.takeWhile_append_of_pos hall,
        List.takeWhile_cons_of_neg (by rw [bne_self_eq_false]; exact Bool.false_ne_true),
        List.append_nil]

theorem isBlockedWebhookHost_iff {host : List Char} :
    isBlockedWebhookHost (String.ofList host) = true ↔
      host ∈ daemonNames ∨ "127.".toList <+: host ∨ "169.254.".toList <+: host ∨
        host = "[::1]".toList ∨ "[fe80:".toList <+: host ∨ "fe80:".toList <+: host := by
  unfold isBlockedWebhookHost daemonNames
  simp only [Bool.or_eq_true, beq_iff_eq, List.isPrefixOf_iff_prefix, String.toList_ofList,
    List.mem_cons, List.not_mem_nil, or_false, or_assoc, ← String.toList_inj]

theorem cutHost_bracket_blocked_iff (stripped : List Char) :
    (∃ host, cutHost ('[' :: stripped) = some host ∧ isBlockedWebhookHost host = true) ↔
      PlainHost (('[' :: stripped).map Char.toLower) := by
  have hmap := map_takeWhile_ne (b := ']') (by decide) stripped
  have hmem : ']' ∈ stripped ↔ ']' ∈ stripped.map Char.toLower := by
    rw [List.mem_map]
    refine ⟨fun h => ⟨']', h, rfl⟩, fun ⟨c, hc, hlower⟩ => ?_⟩
    rwa [← (toLower_eq_iff (by decide)).mp hlower]
  have hlower : ('[' :: stripped).map Char.toLower = '[' :: stripped.map Char.toLower := rfl
  have hplain : PlainHost ('[' :: stripped.map Char.toLower) ↔
      "fe80:".toList <+: stripped.map Char.toLower ∧ ']' ∈ stripped.map Char.toLower := by
    simp [PlainHost, daemonNames]
  rw [hlower, hplain, ← hmem]
  generalize stripped.map Char.toLower = s at hmap
  have hclose : ']' ∉ s.takeWhile (· != ']') := by
    intro hin
    exact absurd (List.mem_takeWhile_imp hin) (by decide)
  have hblocked : isBlockedWebhookHost (String.ofList ('[' :: s.takeWhile (· != ']'))) = true ↔
      "fe80:".toList <+: s := by
    rw [isBlockedWebhookHost_iff, ← prefix_takeWhile_iff (t := s) (p := (· != ']')) rfl]
    constructor
    · rintro (h | h | h | h | h | h)
      · simp [daemonNames] at h
      · simp at h
      · simp at h
      · refine absurd ?_ hclose
        rw [(List.cons.inj h).2]
        decide
      · simpa using h
      · simp at h
    · exact fun h => .inr (.inr (.inr (.inr (.inl (by simpa using h)))))
  unfold cutHost
  by_cases hin : ']' ∈ stripped
  · rw [and_iff_left hin, ← hblocked, ← hmap]
    simp [hin]
  · simp [hin]

theorem cutHost_open_blocked_iff {hostPart : List Char} (h : hostPart.head? ≠ some '[') :
    (∃ host, cutHost hostPart = some host ∧ isBlockedWebhookHost host = true) ↔
      PlainHost (hostPart.map Char.toLower) := by
  have hmap := map_takeWhile_ne (b := ':') (by decide) hostPart
  have hcut : cutHost hostPart =
      if (hostPart.map Char.toLower).takeWhile (· != ':') = [] then none
      else some (String.ofList ((hostPart.map Char.toLower).takeWhile (· != ':'))) := by
    rw [← hmap]
    unfold cutHost
    split
    · exact absurd rfl h
    · exact if_congr List.map_eq_nil_iff.symm rfl rfl
  have hhead : ¬ "[fe80:".toList <+: hostPart.map Char.toLower := by
    rintro ⟨t, ht⟩
    cases hostPart with
    | nil => cases ht
    | cons c cs =>
      have hc : c.toLower = '[' := (List.cons.inj ht).1.symm
      exact h (congrArg some ((toLower_eq_iff (by decide)).mp hc))
  rw [hcut]
  generalize hostPart.map Char.toLower = s at hhead
  have hnocolon : ':' ∉ s.takeWhile (· != ':') := by
    intro hin
    exact absurd (List.mem_takeWhile_imp hin) (by decide)
  have hnames : s.takeWhile (· != ':') ∈ daemonNames ↔
      ∃ name ∈ daemonNames, s = name ∨ name ++ [':'] <+: s := by
    have hcolons : ∀ name ∈ daemonNames, ':' ∉ name := by decide
    constructor
    · exact fun hin => ⟨_, hin, (takeWhile_ne_eq_iff (hcolons _ hin)).mp rfl⟩
    · rintro ⟨name, hin, heq⟩
      rwa [(takeWhile_ne_eq_iff (hcolons _ hin)).mpr heq]
  have hblocked : isBlockedWebhookHost (String.ofList (s.takeWhile (· != ':'))) = true ↔
      PlainHost s := by
    rw [isBlockedWebhookHost_iff, hnames, prefix_takeWhile_iff rfl,
      prefix_takeWhile_iff rfl]
    unfold PlainHost
    constructor
    · rintro (h | h | h | h | h | h)
      · exact .inr (.inr (.inr h))
      · exact .inl h
      · exact .inr (.inl h)
      · refine absurd ?_ hnocolon
        rw [h]
        decide
      · exact absurd (h.subset (by decide)) hnocolon
      · exact absurd (h.subset (by decide)) hnocolon
    · rintro (h | h | h | h)
      · exact .inr (.inl h)
      · exact .inr (.inr (.inl h))
      · exact absurd h.1 hhead
      · exact .inl h
  by_cases hnil : s.takeWhile (· != ':') = []
  · rw [← hblocked, if_pos hnil, hnil]
    constructor
    · rintro ⟨host, hhost, -⟩
      cases hhost
    · exact fun hblock => absurd hblock (by decide)
  · rw [if_neg hnil, ← hblocked]
    exact ⟨fun ⟨host, hhost, hblock⟩ => Option.some.inj hhost ▸ hblock, fun hblock => ⟨_, rfl, hblock⟩⟩

theorem cutHost_blocked_iff (hostPart : List Char) :
    (∃ host, cutHost hostPart = some host ∧ isBlockedWebhookHost host = true) ↔
      PlainHost (hostPart.map Char.toLower) := by
  by_cases h : hostPart.head? = some '['
  · obtain ⟨stripped, rfl⟩ := List.head?_eq_some_iff.mp h
    exact cutHost_bracket_blocked_iff stripped
  · exact cutHost_open_blocked_iff h

/-- **The URLs that are refused for their host.** -/
theorem blocked_iff {url : String} (hweb : hasWebScheme url = true) :
    (∃ host, extractUrlHost url = some host ∧ isBlockedWebhookHost host = true) ↔
      PlainSpelling url.toList := by
  constructor
  · rintro ⟨host, hhost, hblocked⟩
    have hscheme : ∃ scheme ∈ ["http://".toList, "https://".toList], scheme <+: url.toList := by
      unfold hasWebScheme at hweb
      rw [Bool.or_eq_true, List.isPrefixOf_iff_prefix, List.isPrefixOf_iff_prefix] at hweb
      rcases hweb with h | h
      · exact ⟨_, List.mem_cons_self, h⟩
      · exact ⟨_, List.mem_cons_of_mem _ List.mem_cons_self, h⟩
    obtain ⟨scheme, hscheme, afterScheme, hurl⟩ := hscheme
    rw [extractUrlHost_append hscheme hurl.symm] at hhost
    exact ⟨scheme, hscheme, afterScheme, hurl.symm,
      (cutHost_blocked_iff _).mp ⟨host, hhost, hblocked⟩⟩
  · rintro ⟨scheme, hscheme, afterScheme, hurl, hplain⟩
    rw [extractUrlHost_append hscheme hurl]
    exact (cutHost_blocked_iff _).mpr hplain

theorem validate_webhook_iff {i : ℕ} {url : String} :
    validateDeliveryTarget i (.webhook url) = .ok () ↔
      hasWebScheme url = true ∧ url.utf8ByteSize ≤ maxWebhookUrlLen ∧
        ¬ PlainSpelling url.toList := by
  unfold validateDeliveryTarget
  dsimp only
  by_cases hweb : hasWebScheme url = true
  · rw [if_neg (not_not_intro hweb), ← blocked_iff hweb]
    by_cases hlen : maxWebhookUrlLen < url.utf8ByteSize
    · rw [if_pos hlen]
      exact ⟨fun h => (by cases h), fun h => absurd h.2.1 (Nat.not_le.mpr hlen)⟩
    · rw [if_neg hlen]
      have hrest := and_iff_right (b := ¬ ∃ host, extractUrlHost url = some host ∧
        isBlockedWebhookHost host = true) (Nat.not_lt.mp hlen)
      rw [hrest, and_iff_right hweb]
      cases hhost : extractUrlHost url with
      | none => simp
      | some host =>
        dsimp only
        by_cases hblocked : isBlockedWebhookHost host = true
        · simp [hblocked]
        · simp [hblocked]
  · rw [if_pos hweb]
    exact ⟨fun h => (by cases h), fun h => absurd h.1 hweb⟩

theorem exists_validate_of_mem {i : ℕ} {targets : List CronDeliveryTarget}
    (h : validateDeliveryTargets i targets = .ok ()) {target : CronDeliveryTarget}
    (hmem : target ∈ targets) : ∃ j, validateDeliveryTarget j target = .ok () := by
  induction targets generalizing i with
  | nil => cases hmem
  | cons first targets ih =>
    unfold validateDeliveryTargets at h
    cases hfirst : validateDeliveryTarget i first with
    | error e =>
      rw [hfirst] at h
      cases h
    | ok u =>
      rw [hfirst] at h
      rcases List.mem_cons.mp hmem with rfl | hmem
      · exact ⟨i, hfirst⟩
      · exact ih h hmem

/-- The URL of an accepted webhook never leads the client to the daemon. -/
def NeverAtDaemon (domainToAscii : List UInt8 → Option (List Char)) (url : String) : Prop :=
  ∀ targets, validateDeliveryTargets 0 targets = .ok () → .webhook url ∈ targets →
    ∀ host, whatwgHost domainToAscii url.toList = some host → ¬ PointsAtDaemon host

/-- **When an accepted webhook does not point at the daemon.** -/
theorem deliveryTargets_safe_iff (domainToAscii : List UInt8 → Option (List Char)) (url : String) :
    NeverAtDaemon domainToAscii url ↔
      (hasWebScheme url = true → url.utf8ByteSize ≤ maxWebhookUrlLen →
        ∀ host, whatwgHost domainToAscii url.toList = some host → PointsAtDaemon host →
          PlainSpelling url.toList) := by
  constructor
  · intro h hweb hlen host hhost hdaemon
    by_contra hplain
    have hok : validateDeliveryTargets 0 [.webhook url] = .ok () := by
      unfold validateDeliveryTargets
      rw [validate_webhook_iff.mpr ⟨hweb, hlen, hplain⟩]
      rfl
    exact h _ hok List.mem_cons_self host hhost hdaemon
  · intro h targets hok hmem host hhost hdaemon
    obtain ⟨j, hj⟩ := exists_validate_of_mem hok hmem
    obtain ⟨hweb, hlen, hplain⟩ := validate_webhook_iff.mp hj
    exact hplain (h hweb hlen host hhost hdaemon)

/-- The loopback address of IPv6 is accepted, whatever form domains have. -/
theorem loopback_accepted :
    ¬ ∃ domainToAscii : List UInt8 → Option (List Char), ∀ url, NeverAtDaemon domainToAscii url := by
  rintro ⟨domainToAscii, h⟩
  have hok : validateDeliveryTargets 0 [.webhook "http://[::1]/hook"] = .ok () := by decide +kernel
  have hhost : whatwgHost domainToAscii "http://[::1]/hook".toList = some "[::1]".toList := rfl
  exact h "http://[::1]/hook" _ hok List.mem_cons_self _ hhost (by decide +kernel)

end LibreFang.Cron
