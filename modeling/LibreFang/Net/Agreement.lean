import LibreFang.Net.Ssrf
import LibreFang.Net.Url

/-!
# The check and the HTTP client on the host of a URL

* `urlHostname_eq_iff`: the hostname that `check_ssrf` takes from a URL.
* `ReadAlike`: the URLs that both read alike.
* **`whatwgHost_eq_hostname_iff`**: the client goes to the host that was checked if and only if the
  URL is such a one.
-/

namespace LibreFang.Net

open Text

/-! ## The hostname of the check -/

/-- What stands before the first slash of a text. -/
def beforeSlash (rest : List Char) : List Char := rest.takeWhile (· != '/')

variable {s : List Char}

theorem hostnameOf_of_bracket (hs : s.head? = some '[') (hmem : ']' ∈ s) :
    hostnameOf s = s.takeWhile (· != ']') ++ [']'] := by
  unfold hostnameOf
  split
  · exact if_pos hmem
  · rename_i hne
    obtain ⟨t, rfl⟩ := List.head?_eq_some_iff.mp hs
    exact absurd rfl (hne t)

theorem hostnameOf_of_open_bracket (hs : s.head? = some '[') (hmem : ']' ∉ s) :
    hostnameOf s = s := by
  unfold hostnameOf
  split
  · exact if_neg hmem
  · rename_i hne
    obtain ⟨t, rfl⟩ := List.head?_eq_some_iff.mp hs
    exact absurd rfl (hne t)

theorem hostnameOf_of_not_bracket (hs : s.head? ≠ some '[') :
    hostnameOf s = s.takeWhile (· != ':') := by
  unfold hostnameOf
  split
  · exact absurd rfl hs
  · rfl

theorem hostnameOf_append (hs : s.head? = some '[' → ']' ∈ s) (port : List Char) :
    hostnameOf (s ++ ':' :: port) = hostnameOf s := by
  by_cases hbracket : s.head? = some '['
  · have hmem := hs hbracket
    rw [hostnameOf_of_bracket hbracket hmem,
      hostnameOf_of_bracket (List.mem_head?_append_of_mem_head? hbracket)
        (List.mem_append_left _ hmem), takeWhile_append_of_mem hmem rfl]
  · have happend : (s ++ ':' :: port).head? ≠ some '[' := by
      cases s with
      | nil => exact nofun
      | cons c s => exact hbracket
    rw [hostnameOf_of_not_bracket hbracket, hostnameOf_of_not_bracket happend,
      takeWhile_append_cons rfl]

theorem hostnameOf_bracketed (hs : s.head? = some '[') (hmem : ']' ∈ s) :
    hostnameOf (s.takeWhile (· != ']') ++ [']']) = hostnameOf s := by
  obtain ⟨t, rfl⟩ := List.head?_eq_some_iff.mp hs
  rw [hostnameOf_of_bracket rfl hmem, hostnameOf_of_bracket rfl (by simp),
    takeWhile_append_cons rfl, List.takeWhile_idem]

theorem withDefaultPort_eq (url host : List Char) :
    withDefaultPort url host = host ++ ':' :: ['4', '4', '3'] ∨
      withDefaultPort url host = host ++ ':' :: ['8', '0'] := by
  unfold withDefaultPort
  split_ifs
  · exact .inl rfl
  · exact .inr rfl

variable {url part : List Char}

theorem extractHost_of_not_bracket (hurl : afterScheme url = some part)
    (h : (beforeSlash part).head? = some '[' → ']' ∉ beforeSlash part) :
    extractHost url = beforeSlash part ∨ extractHost url = withDefaultPort url (beforeSlash part) := by
  unfold extractHost
  rw [hurl]
  dsimp only
  rw [← beforeSlash]
  split
  · rename_i rest hrest
    rw [hrest] at h ⊢
    rw [if_neg (h rfl)]
    split_ifs
    · exact .inl rfl
    · exact .inr rfl
  · split_ifs
    · exact .inl rfl
    · exact .inr rfl

theorem extractHost_of_bracket (hurl : afterScheme url = some part)
    (hbracket : (beforeSlash part).head? = some '[') (hmem : ']' ∈ beforeSlash part) :
    ∃ port, extractHost url =
      (beforeSlash part).takeWhile (· != ']') ++ [']'] ++ ':' :: port := by
  unfold extractHost
  rw [hurl]
  dsimp only
  rw [← beforeSlash]
  split
  · rename_i rest hrest
    rw [hrest] at hmem ⊢
    rw [if_pos hmem]
    split
    · exact ⟨_, rfl⟩
    · exact (withDefaultPort_eq url _).elim (fun h => ⟨_, h⟩) fun h => ⟨_, h⟩
  · rename_i hne
    obtain ⟨t, ht⟩ := List.head?_eq_some_iff.mp hbracket
    exact absurd ht (hne t)

theorem urlHostname_of_afterScheme (hurl : afterScheme url = some part)
    (h : (beforeSlash part).head? = some '[' → ']' ∈ beforeSlash part) :
    urlHostname url = hostnameOf (beforeSlash part) := by
  unfold urlHostname
  by_cases hbracket : (beforeSlash part).head? = some '['
  · obtain ⟨port, hport⟩ := extractHost_of_bracket hurl hbracket (h hbracket)
    rw [hport, hostnameOf_append fun _ => by simp, hostnameOf_bracketed hbracket (h hbracket)]
  · rcases extractHost_of_not_bracket hurl fun h => absurd h hbracket with hhost | hhost
    · rw [hhost]
    · rw [hhost]
      rcases withDefaultPort_eq url (beforeSlash part) with hport | hport
      · rw [hport, hostnameOf_append h]
      · rw [hport, hostnameOf_append h]

theorem afterScheme_append {scheme : List Char} (hscheme : ':' ∉ scheme) (rest : List Char) :
    afterScheme (scheme ++ ("://".toList ++ rest)) =
      some ((splitOnceStr "://".toList rest).elim rest (·.1)) := by
  unfold afterScheme
  rw [show "://".toList = ':' :: ['/', '/'] by rfl, splitOnceStr_append hscheme,
    splitOnceStr_self_append]
  rfl

theorem beforeSlash_eq_or (rest : List Char) :
    beforeSlash rest = beforeSlash ((splitOnceStr "://".toList rest).elim rest (·.1)) ∨
      beforeSlash rest = beforeSlash ((splitOnceStr "://".toList rest).elim rest (·.1)) ++ [':'] := by
  cases hsplit : splitOnceStr "://".toList rest with
  | none => exact .inl rfl
  | some parts =>
    obtain ⟨before, after⟩ := parts
    dsimp only [Option.elim]
    unfold beforeSlash
    rw [eq_of_splitOnceStr hsplit]
    by_cases hslash : '/' ∈ before
    · exact .inl (takeWhile_append_of_mem hslash rfl _)
    · have hall : before.takeWhile (· != '/') = before :=
        List.takeWhile_eq_self_iff.mpr fun c hc =>
          bne_iff_ne.mpr (ne_of_mem_of_not_mem hc hslash)
      right
      rw [show before ++ ("://".toList ++ after) = before ++ [':'] ++ ('/' :: '/' :: after) by simp,
        takeWhile_append_cons rfl, List.takeWhile_append, hall, if_pos rfl]
      rfl

theorem urlHostname_eq {scheme rest : List Char} (hscheme : ':' ∉ scheme)
    (h : (beforeSlash rest).head? = some '[' → ']' ∈ beforeSlash rest) :
    urlHostname (scheme ++ ("://".toList ++ rest)) = hostnameOf (beforeSlash rest) := by
  have hurl := afterScheme_append hscheme rest
  rcases beforeSlash_eq_or rest with hrest | hrest
  · rw [hrest] at h ⊢
    exact urlHostname_of_afterScheme hurl h
  · have hpart : (beforeSlash ((splitOnceStr "://".toList rest).elim rest (·.1))).head? = some '[' →
        ']' ∈ beforeSlash ((splitOnceStr "://".toList rest).elim rest (·.1)) := by
      intro hbracket
      rw [hrest] at h
      have hmem := h (List.mem_head?_append_of_mem_head? hbracket)
      exact (List.mem_append.mp hmem).resolve_right fun h => nomatch List.mem_singleton.mp h
    rw [hrest, hostnameOf_append hpart, urlHostname_of_afterScheme hurl hpart]

theorem not_isHost_of_open_bracket (hs : s.head? = some '[') (hmem : ']' ∉ s) : ¬ IsHost s := by
  intro h
  rcases h.shape with ⟨inner, rfl, -⟩ | ⟨-, hopen, -⟩
  · exact hmem (by simp)
  · exact hopen (List.mem_of_mem_head? hs)

theorem not_isHost_urlHostname {scheme rest : List Char} (hscheme : ':' ∉ scheme)
    (hbracket : (beforeSlash rest).head? = some '[') (hmem : ']' ∉ beforeSlash rest) :
    ¬ IsHost (urlHostname (scheme ++ ("://".toList ++ rest))) := by
  have hpart : (beforeSlash ((splitOnceStr "://".toList rest).elim rest (·.1))).head? = some '[' ∧
      ']' ∉ beforeSlash ((splitOnceStr "://".toList rest).elim rest (·.1)) := by
    rcases beforeSlash_eq_or rest with hrest | hrest
    · rw [← hrest]
      exact ⟨hbracket, hmem⟩
    · rw [hrest] at hbracket hmem
      refine ⟨?_, fun h => hmem (List.mem_append_left _ h)⟩
      rw [List.head?_append] at hbracket
      exact (Option.or_eq_some_iff.mp hbracket).resolve_right fun h => nomatch h.2
  have hopen {port : List Char} (hport : ']' ∉ port) :
      ¬ IsHost (hostnameOf
        (beforeSlash ((splitOnceStr "://".toList rest).elim rest (·.1)) ++ port)) := by
    have hhead := List.mem_head?_append_of_mem_head? (t := port) hpart.1
    have hnot : ']' ∉ beforeSlash ((splitOnceStr "://".toList rest).elim rest (·.1)) ++ port :=
      fun h => (List.mem_append.mp h).elim hpart.2 hport
    rw [hostnameOf_of_open_bracket hhead hnot]
    exact not_isHost_of_open_bracket hhead hnot
  unfold urlHostname
  rcases extractHost_of_not_bracket (afterScheme_append hscheme rest) fun _ => hpart.2 with h | h
  · rw [h, ← List.append_nil (beforeSlash _)]
    exact hopen nofun
  · rw [h]
    rcases withDefaultPort_eq (scheme ++ ("://".toList ++ rest))
      (beforeSlash ((splitOnceStr "://".toList rest).elim rest (·.1))) with h | h
    · rw [h]
      exact hopen (by decide)
    · rw [h]
      exact hopen (by decide)

/-- A text that ends where the hostname does: an address in brackets ends at its bracket. -/
def EndsHostname (host tail : List Char) : Prop :=
  host.head? = some '[' ∨ ∀ c ∈ tail.head?, c = ':' ∨ c = '/'

theorem eq_of_mem_head?_dropWhile {c d : Char}
    (h : d ∈ (s.dropWhile (· != c)).head?) : d = c := by
  have hnot := List.head?_dropWhile_not (· != c) s
  rw [Option.mem_def.mp h] at hnot
  exact bne_eq_false_iff_eq.mp hnot

variable {host : List Char}

theorem IsHost.beforeSlash_append (hhost : IsHost host) (tail : List Char) :
    beforeSlash (host ++ tail) = host ++ beforeSlash tail := by
  have hall : ∀ c ∈ host, (c != '/') = true := fun c hc =>
    bne_iff_ne.mpr (isPlain_iff.mp (hhost.plain c hc)).2.1
  exact List.takeWhile_append_of_pos hall

theorem hostnameOf_host_append {host tail : List Char} (hhost : IsHost host)
    (hends : EndsHostname host tail) : hostnameOf (host ++ beforeSlash tail) = host := by
  rcases hhost.shape with ⟨inner, rfl, -, hclose⟩ | ⟨hcolon, hopen, -⟩
  · have hinner : ∀ c ∈ '[' :: inner, (c != ']') = true := by
      intro c hc
      rw [bne_iff_ne]
      rintro rfl
      exact (List.mem_cons.mp hc).elim nofun hclose
    rw [hostnameOf_of_bracket rfl (by simp), List.cons_append, List.append_assoc,
      List.singleton_append, ← List.cons_append, takeWhile_append_cons rfl,
      List.takeWhile_eq_self_iff.mpr hinner, List.cons_append]
  · have hbracket : (host ++ beforeSlash tail).head? ≠ some '[' := by
      intro h
      rw [List.head?_append_of_ne_nil _ hhost.ne_nil] at h
      exact hopen (List.mem_of_mem_head? h)
    have hall : ∀ c ∈ host, (c != ':') = true := fun c hc =>
      bne_iff_ne.mpr (ne_of_mem_of_not_mem hc hcolon)
    have htail : (beforeSlash tail).takeWhile (· != ':') = [] := by
      unfold beforeSlash
      cases tail with
      | nil => rfl
      | cons c tail =>
        rcases hends with h | h
        · exact absurd (List.mem_of_mem_head? h) hopen
        · rcases h c rfl with rfl | rfl
          · rfl
          · rfl
    rw [hostnameOf_of_not_bracket hbracket, List.takeWhile_append_of_pos hall, htail,
      List.append_nil]

/-- **The hostname of the check.** -/
theorem urlHostname_eq_iff {scheme rest host : List Char} (hscheme : ':' ∉ scheme)
    (hhost : IsHost host) :
    urlHostname (scheme ++ ("://".toList ++ rest)) = host ↔
      ∃ tail, rest = host ++ tail ∧ EndsHostname host tail := by
  constructor
  · rintro rfl
    have hrest : rest = beforeSlash rest ++ rest.dropWhile (· != '/') :=
      List.takeWhile_append_dropWhile.symm
    by_cases hbracket : (beforeSlash rest).head? = some '['
    · by_cases hmem : ']' ∈ beforeSlash rest
      · rw [urlHostname_eq hscheme fun _ => hmem, hostnameOf_of_bracket hbracket hmem]
        cases hdrop : (beforeSlash rest).dropWhile (· != ']') with
        | nil => exact absurd (List.dropWhile_eq_nil_iff.mp hdrop _ hmem) (by decide)
        | cons c tail =>
          obtain rfl : c = ']' := eq_of_mem_head?_dropWhile (by rw [hdrop]; rfl)
          refine ⟨tail ++ rest.dropWhile (· != '/'), ?_, .inl ?_⟩
          · nth_rw 1 [hrest, ← List.takeWhile_append_dropWhile (p := (· != ']')) (l := beforeSlash rest),
              hdrop]
            simp
          · obtain ⟨t, ht⟩ := List.head?_eq_some_iff.mp hbracket
            rw [ht]
            rfl
      · exact absurd hhost (not_isHost_urlHostname hscheme hbracket hmem)
    · rw [urlHostname_eq hscheme fun h => absurd h hbracket, hostnameOf_of_not_bracket hbracket]
      refine ⟨(beforeSlash rest).dropWhile (· != ':') ++ rest.dropWhile (· != '/'), ?_, .inr ?_⟩
      · rw [← List.append_assoc, List.takeWhile_append_dropWhile, ← hrest]
      · intro c hc
        rw [List.head?_append, Option.mem_def, Option.or_eq_some_iff] at hc
        rcases hc with hc | ⟨-, hc⟩
        · exact .inl (eq_of_mem_head?_dropWhile hc)
        · exact .inr (eq_of_mem_head?_dropWhile hc)
  · rintro ⟨tail, rfl, hends⟩
    have hclosed : (beforeSlash (host ++ tail)).head? = some '[' →
        ']' ∈ beforeSlash (host ++ tail) := by
      intro h
      rw [hhost.beforeSlash_append, List.head?_append_of_ne_nil _ hhost.ne_nil] at h
      rw [hhost.beforeSlash_append]
      by_contra hmem
      exact not_isHost_of_open_bracket h (fun hc => hmem (List.mem_append_left _ hc)) hhost
    rw [urlHostname_eq hscheme hclosed, hhost.beforeSlash_append,
      hostnameOf_host_append hhost hends]

/-! ## The host by the URL standard -/

/-- The end of a URL, without the characters that the URL parser removes. -/
def cleanEnd (tail : List Char) : List Char :=
  (tail.rdropWhile isC0OrSpace).filter fun c => !isTabOrNewline c

/-- What stands after the hostname in the authority. -/
def restOfAuthority (tail : List Char) : List Char := authorityOf (cleanEnd tail)

theorem rdropWhile_append {p : Char → Bool} (hs : ∀ c ∈ s, p c = false)
    (t : List Char) : (s ++ t).rdropWhile p = s ++ t.rdropWhile p := by
  induction t using List.reverseRecOn with
  | nil =>
    rw [List.append_nil, List.rdropWhile_nil, List.append_nil, List.rdropWhile_eq_self_iff]
    exact fun hne => ne_true_of_eq_false (hs _ (List.getLast_mem hne))
  | append_singleton t c ih =>
    rw [← List.append_assoc, List.rdropWhile_concat, List.rdropWhile_concat]
    split_ifs
    · exact ih
    · exact List.append_assoc s t [c]

theorem cleanUrl_append (hne : s ≠ []) (hs : ∀ c ∈ s, isC0OrSpace c = false)
    (tail : List Char) : cleanUrl (s ++ tail) = s ++ cleanEnd tail := by
  have hstart : (s ++ tail).dropWhile isC0OrSpace = s ++ tail := by
    cases s with
    | nil => exact absurd rfl hne
    | cons c s => exact List.dropWhile_cons_of_neg (ne_true_of_eq_false (hs c List.mem_cons_self))
  have hkeep : ∀ c ∈ s, (!isTabOrNewline c) = true := by
    intro c hc
    have hc0 := hs c hc
    unfold isTabOrNewline
    by_contra htab
    simp only [Bool.not_eq_true', Bool.not_eq_false, Bool.or_eq_true, beq_iff_eq] at htab
    rcases htab with (rfl | rfl) | rfl <;> cases hc0
  unfold cleanUrl cleanEnd
  rw [hstart, rdropWhile_append hs, List.filter_append, List.filter_eq_self.mpr hkeep]

theorem IsHost.authorityOf_append (hhost : IsHost host) (tail : List Char) :
    authorityOf (host ++ tail) = host ++ authorityOf tail := by
  have hall : ∀ c ∈ host, (!endsAuthority c) = true := by
    intro c hc
    have hplain := hhost.plain c hc
    unfold isPlain at hplain
    rw [Bool.and_eq_true, Bool.and_eq_true] at hplain
    exact hplain.1.2
  exact List.takeWhile_append_of_pos hall

/-- The schemes of web URLs. -/
def webSchemes : List (List Char) := ["http".toList, "https".toList]

theorem isC0OrSpace_of_mem_web {scheme host : List Char} (hscheme : scheme ∈ webSchemes)
    (hhost : IsHost host) : ∀ c ∈ scheme ++ ("://".toList ++ host), isC0OrSpace c = false := by
  intro c hc
  rw [List.mem_append, List.mem_append] at hc
  rcases hc with hc | hc | hc
  · have hall : ∀ scheme ∈ webSchemes, (scheme.all fun c => !isC0OrSpace c) = true := by decide
    exact (Bool.not_eq_true' _).mp (List.all_eq_true.mp (hall scheme hscheme) c hc)
  · have hall : ("://".toList.all fun c => !isC0OrSpace c) = true := by decide
    exact (Bool.not_eq_true' _).mp (List.all_eq_true.mp hall c hc)
  · have hplain := hhost.plain c hc
    unfold isPlain at hplain
    rw [Bool.and_eq_true, Bool.and_eq_true, Bool.not_eq_true'] at hplain
    exact hplain.1.1

theorem IsHost.dropWhile_isSlash (hhost : IsHost host) (tail : List Char) :
    ("//".toList ++ (host ++ tail)).dropWhile isSlash = host ++ tail := by
  cases host with
  | nil => exact absurd rfl hhost.ne_nil
  | cons c host =>
    have hplain := isPlain_iff.mp (hhost.plain c List.mem_cons_self)
    have hslash : isSlash c = false := by
      unfold isSlash
      rw [beq_eq_false_iff_ne.mpr hplain.2.1, beq_eq_false_iff_ne.mpr hplain.2.2.1]
      rfl
    exact List.dropWhile_cons_of_neg (ne_true_of_eq_false hslash)

theorem whatwgHost_eq (domainToAscii : List UInt8 → Option (List Char)) {scheme host : List Char}
    (hscheme : scheme ∈ webSchemes) (hhost : IsHost host) (tail : List Char) :
    whatwgHost domainToAscii (scheme ++ ("://".toList ++ (host ++ tail))) =
      hostOfAuthority domainToAscii (host ++ restOfAuthority tail) := by
  have hclean : cleanUrl (scheme ++ ("://".toList ++ (host ++ tail))) =
      scheme ++ (":".toList ++ ("//".toList ++ (host ++ cleanEnd tail))) := by
    have hne : scheme ++ ("://".toList ++ host) ≠ [] :=
      List.append_ne_nil_of_right_ne_nil _ (List.append_ne_nil_of_right_ne_nil _ hhost.ne_nil)
    have h := cleanUrl_append hne (isC0OrSpace_of_mem_web hscheme hhost) tail
    rw [List.append_assoc, List.append_assoc, List.append_assoc, List.append_assoc] at h
    exact h
  have hcolon : ':' ∉ scheme :=
    (show ∀ scheme ∈ webSchemes, ':' ∉ scheme by decide) _ hscheme
  have hlower : String.ofList (scheme.map Char.toLower) ∈ ["http", "https"] :=
    (show ∀ scheme ∈ webSchemes, String.ofList (scheme.map Char.toLower) ∈ ["http", "https"] by
      decide) _ hscheme
  unfold whatwgHost
  rw [hclean, show ":".toList = ':' :: [] by rfl, splitOnceStr_append hcolon,
    splitOnceStr_self_append]
  dsimp only [Option.map]
  rw [List.append_nil, if_pos hlower, hhost.dropWhile_isSlash, hhost.authorityOf_append,
    restOfAuthority]

/-! ## The host of an authority -/

/-- A port that the client accepts, or nothing. -/
def IsPortPart (rest : List Char) : Prop := rest = [] ∨ ∃ port, rest = ':' :: port ∧ isPort port = true

/-- What stands after the hostname in the authority leads to the same host: there is a port at most
and the hostname is a host as the standard writes it, or all is userinfo before such a host. -/
def LeadsTo (domainToAscii : List UInt8 → Option (List Char)) (host rest : List Char) : Prop :=
  if '@' ∈ rest then hostOfAuthority domainToAscii rest = some host
  else IsPortPart rest ∧ hostParser domainToAscii host = some host

theorem afterUserinfo_append {rest : List Char} (hat : '@' ∈ rest) (host : List Char) :
    afterUserinfo (host ++ rest) = afterUserinfo rest := by
  unfold afterUserinfo List.rtakeWhile
  rw [List.reverse_append, takeWhile_append_of_mem (List.mem_reverse.mpr hat) rfl]

theorem afterUserinfo_of_not_mem {authority : List Char} (hat : '@' ∉ authority) :
    afterUserinfo authority = authority := by
  unfold afterUserinfo
  rw [List.rtakeWhile_eq_self_iff]
  exact fun c hc => bne_iff_ne.mpr (ne_of_mem_of_not_mem hc hat)

theorem splitHostPort_append {inBrackets : Bool} (hopen : '[' ∉ s)
    (hclose : ']' ∉ s) (hcolon : inBrackets = false → ':' ∉ s) (rest : List Char) :
    splitHostPort inBrackets (s ++ rest) =
      (s ++ (splitHostPort inBrackets rest).1, (splitHostPort inBrackets rest).2) := by
  induction s with
  | nil => rfl
  | cons c s ih =>
    rw [List.mem_cons, not_or] at hopen hclose
    have hc : ¬ (c = ':' ∧ inBrackets = false) := fun h =>
      hcolon h.2 (h.1 ▸ List.mem_cons_self)
    rw [List.cons_append, splitHostPort, if_neg hc, if_neg (Ne.symm hopen.1),
      if_neg (Ne.symm hclose.1), ih hopen.2 hclose.2 fun hb h => hcolon hb (List.mem_cons_of_mem c h)]
    rfl

theorem IsHost.splitHostPort_append (hhost : IsHost host) (rest : List Char) :
    splitHostPort false (host ++ rest) =
      (host ++ (splitHostPort false rest).1, (splitHostPort false rest).2) := by
  rcases hhost.shape with ⟨inner, rfl, hopen, hclose⟩ | ⟨hcolon, hopen, hclose⟩
  · have hinner : splitHostPort true (inner ++ (']' :: rest)) =
        (inner ++ (splitHostPort true (']' :: rest)).1, (splitHostPort true (']' :: rest)).2) :=
      Net.splitHostPort_append hopen hclose (fun h => Bool.noConfusion h) _
    rw [List.cons_append, List.append_assoc, List.singleton_append, splitHostPort,
      if_neg (by decide), if_pos rfl, hinner, splitHostPort, if_neg (by decide),
      if_neg (by decide), if_pos rfl]
    simp
  · exact Net.splitHostPort_append hopen hclose (fun _ => hcolon) rest

theorem splitHostPort_fst_eq_nil_iff {rest : List Char} :
    (splitHostPort false rest).1 = [] ↔ ∀ c ∈ rest.head?, c = ':' := by
  cases rest with
  | nil => exact ⟨fun _ => nofun, fun _ => rfl⟩
  | cons c rest =>
    by_cases hc : c = ':'
    · obtain rfl := hc
      exact ⟨fun _ d hd => (Option.some.inj hd).symm, fun _ => rfl⟩
    · rw [splitHostPort, if_neg fun h => hc h.1]
      exact ⟨nofun, fun h => absurd (h c rfl) hc⟩

variable {host rest : List Char}

theorem hostParser_append_eq_none (domainToAscii : List UInt8 → Option (List Char))
    (hhost : IsHost host) (hbracket : host.head? = some '[')
    (hrest : rest ≠ []) : hostParser domainToAscii (host ++ rest) = none := by
  rcases hhost.shape with ⟨inner, rfl, -⟩ | ⟨-, hopen, -⟩
  · rw [List.cons_append, hostParser]
    split_ifs
    · rw [Option.map_eq_none_iff, List.append_assoc, List.singleton_append,
        List.dropLast_append_of_ne_nil (List.cons_ne_nil _ _), List.dropLast_cons_of_ne_nil hrest]
      cases hparse : parseIpv6 (inner ++ ']' :: rest.dropLast) with
      | none => rfl
      | some ip =>
        have hclose := isIpv6Char_of_parseIpv6 hparse ']' (by simp)
        cases hclose
    · rfl
  · exact absurd (List.mem_of_mem_head? hbracket) hopen

theorem isPortPart_iff {rest : List Char} :
    IsPortPart rest ↔
      (splitHostPort false rest).1 = [] ∧ isPort (splitHostPort false rest).2 = true := by
  rw [splitHostPort_fst_eq_nil_iff]
  constructor
  · rintro (rfl | ⟨port, rfl, hport⟩)
    · exact ⟨nofun, rfl⟩
    · exact ⟨fun c hc => (Option.some.inj hc).symm, hport⟩
  · rintro ⟨hcolon, hport⟩
    cases rest with
    | nil => exact .inl rfl
    | cons c port =>
      obtain rfl := hcolon c rfl
      exact .inr ⟨port, rfl, hport⟩

theorem hostOfAuthority_append_iff (domainToAscii : List UInt8 → Option (List Char))
    (hhost : IsHost host) (hends : host.head? = some '[' ∨ ∀ c ∈ rest.head?, c = ':') :
    hostOfAuthority domainToAscii (host ++ rest) = some host ↔ LeadsTo domainToAscii host rest := by
  unfold LeadsTo
  by_cases hat : '@' ∈ rest
  · rw [if_pos hat]
    unfold hostOfAuthority
    rw [afterUserinfo_append hat]
  have hnot : '@' ∉ host ++ rest := by
    intro h
    rcases List.mem_append.mp h with h | h
    · exact (isPlain_iff.mp (hhost.plain _ h)).2.2.2.2.2 rfl
    · exact hat h
  rw [if_neg hat]
  unfold hostOfAuthority
  rw [afterUserinfo_of_not_mem hnot, hhost.splitHostPort_append, isPortPart_iff]
  dsimp only
  have hne : host ++ (splitHostPort false rest).1 ≠ [] :=
    List.append_ne_nil_of_left_ne_nil hhost.ne_nil _
  by_cases hport : isPort (splitHostPort false rest).2 = true
  · rw [if_pos ⟨hne, hport⟩]
    by_cases hfirst : (splitHostPort false rest).1 = []
    · rw [hfirst, List.append_nil]
      exact ⟨fun h => ⟨⟨rfl, hport⟩, h⟩, fun h => h.2⟩
    · have hbracket := hends.resolve_right fun h => hfirst (splitHostPort_fst_eq_nil_iff.mpr h)
      rw [hostParser_append_eq_none domainToAscii hhost hbracket hfirst]
      exact ⟨nofun, fun h => absurd h.1.1 hfirst⟩
  · rw [if_neg fun h => hport h.2]
    exact ⟨nofun, fun h => absurd h.1.2 hport⟩

/-! ## Where both agree -/

/-- The URLs that the check and the client read alike. -/
def ReadAlike (domainToAscii : List UInt8 → Option (List Char)) (url : List Char) : Prop :=
  ∃ scheme ∈ webSchemes, ∃ host tail, url = scheme ++ ("://".toList ++ (host ++ tail)) ∧
    EndsHostname host tail ∧ LeadsTo domainToAscii host (restOfAuthority tail)

theorem exists_of_isWebUrl {url : List Char} (h : isWebUrl url = true) :
    ∃ scheme ∈ webSchemes, ∃ rest, url = scheme ++ ("://".toList ++ rest) := by
  unfold isWebUrl at h
  rw [Bool.or_eq_true, List.isPrefixOf_iff_prefix, List.isPrefixOf_iff_prefix] at h
  rcases h with ⟨rest, rfl⟩ | ⟨rest, rfl⟩
  · exact ⟨"http".toList, by decide, rest, rfl⟩
  · exact ⟨"https".toList, by decide, rest, rfl⟩

variable {domainToAscii : List UInt8 → Option (List Char)}

theorem isHost_of_hostOfAuthority
    {authority host : List Char} (h : hostOfAuthority domainToAscii authority = some host) :
    IsHost host := by
  unfold hostOfAuthority at h
  dsimp only at h
  split_ifs at h
  exact isHost_of_hostParser h

theorem isHost_of_whatwgHost
    {url host : List Char} (h : whatwgHost domainToAscii url = some host) : IsHost host := by
  unfold whatwgHost at h
  split at h
  · cases h
  · split_ifs at h
    exact isHost_of_hostOfAuthority h

theorem LeadsTo.isHost
    (h : LeadsTo domainToAscii host rest) : IsHost host := by
  unfold LeadsTo at h
  split_ifs at h
  · exact isHost_of_hostOfAuthority h
  · exact isHost_of_hostParser h.2

theorem cleanEnd_cons {c : Char} (hspace : isC0OrSpace c = false)
    (htab : isTabOrNewline c = false) (tail : List Char) :
    cleanEnd (c :: tail) = c :: cleanEnd tail := by
  have hdrop : (c :: tail).rdropWhile isC0OrSpace = c :: tail.rdropWhile isC0OrSpace :=
    rdropWhile_append (s := [c]) (fun d hd => List.mem_singleton.mp hd ▸ hspace) tail
  unfold cleanEnd
  rw [hdrop, List.filter_cons_of_pos (by rw [htab]; rfl)]

theorem EndsHostname.restOfAuthority {host tail : List Char} (h : EndsHostname host tail) :
    host.head? = some '[' ∨ ∀ c ∈ (restOfAuthority tail).head?, c = ':' := by
  refine h.imp_right fun h c hc => ?_
  cases tail with
  | nil => cases hc
  | cons d tail =>
    unfold Net.restOfAuthority at hc
    rcases h d rfl with rfl | rfl
    · rw [cleanEnd_cons rfl rfl] at hc
      exact (Option.some.inj hc).symm
    · rw [cleanEnd_cons rfl rfl] at hc
      cases hc

/-- **When the client goes to the host that was checked.** -/
theorem whatwgHost_eq_hostname_iff (domainToAscii : List UInt8 → Option (List Char))
    {resolve : Resolver} {url : String} {allowedHosts : List String} {resolution : SsrfResolution}
    (h : checkSsrf resolve url allowedHosts = .ok resolution) :
    whatwgHost domainToAscii url.toList = some resolution.hostname ↔
      ReadAlike domainToAscii url.toList := by
  obtain ⟨hweb, -, -, -, -, hname⟩ := checkSsrf_eq_ok_iff.mp h
  rw [hname]
  have hcolon {scheme : List Char} (hscheme : scheme ∈ webSchemes) : ':' ∉ scheme :=
    (show ∀ scheme ∈ webSchemes, ':' ∉ scheme by decide) _ hscheme
  constructor
  · intro hclient
    obtain ⟨scheme, hscheme, rest, hurl⟩ := exists_of_isWebUrl hweb
    have hhost := isHost_of_whatwgHost hclient
    generalize hsame : urlHostname url.toList = host at hclient hhost
    rw [hurl, urlHostname_eq_iff (hcolon hscheme) hhost] at hsame
    obtain ⟨tail, rfl, hends⟩ := hsame
    rw [hurl, whatwgHost_eq domainToAscii hscheme hhost,
      hostOfAuthority_append_iff domainToAscii hhost hends.restOfAuthority] at hclient
    exact ⟨scheme, hscheme, host, tail, hurl, hends, hclient⟩
  · rintro ⟨scheme, hscheme, host, tail, hurl, hends, hleads⟩
    rw [hurl, (urlHostname_eq_iff (hcolon hscheme) hleads.isHost).mpr ⟨tail, rfl, hends⟩,
      whatwgHost_eq domainToAscii hscheme hleads.isHost,
      hostOfAuthority_append_iff domainToAscii hleads.isHost hends.restOfAuthority]
    exact hleads

/-- The domains that are ASCII, in lower case. -/
def asciiDomain (bytes : List UInt8) : Option (List Char) :=
  if bytes.all fun b => decide (b.toNat < 128) then
    some (bytes.map fun b => (Char.ofNat b.toNat).toLower)
  else none

/-- Any name has this address. -/
def publicAnswer : Resolver := fun _ => .ok [⟨.v4 (ipv4 93 184 216 34), 80⟩]

theorem whatwgHost_of_port :
    whatwgHost asciiDomain "http://api.example:8080/v1".toList = some "api.example".toList := by
  have hok : checkSsrf publicAnswer "http://api.example:8080/v1" [] =
      .ok ⟨"api.example".toList, [⟨.v4 (ipv4 93 184 216 34), 80⟩]⟩ := by
    decide +kernel
  refine (whatwgHost_eq_hostname_iff asciiDomain hok).mpr
    ⟨"http".toList, by decide, "api.example".toList, ":8080/v1".toList, rfl, .inr ?_, ?_⟩
  · exact fun c hc => .inl (Option.some.inj hc).symm
  · unfold LeadsTo
    rw [if_neg (by decide +kernel)]
    exact ⟨.inr ⟨"8080".toList, by decide +kernel, by decide +kernel⟩, by decide +kernel⟩

/-- Userinfo is read as the hostname, whatever form domains have. -/
theorem whatwgHost_ne_userinfo :
    ¬ ∃ domainToAscii : List UInt8 → Option (List Char), ∀ (resolve : Resolver) (url : String)
      (allowedHosts : List String) (resolution : SsrfResolution),
      checkSsrf resolve url allowedHosts = .ok resolution →
        whatwgHost domainToAscii url.toList = some resolution.hostname := by
  rintro ⟨domainToAscii, h⟩
  have hok : checkSsrf publicAnswer "http://good.com:x@[::1]/" [] =
      .ok ⟨"good.com".toList, [⟨.v4 (ipv4 93 184 216 34), 80⟩]⟩ := by
    decide +kernel
  have hclient : whatwgHost domainToAscii "http://good.com:x@[::1]/".toList = some "[::1]".toList :=
    rfl
  have hsame := hclient.symm.trans (h _ _ _ _ hok)
  exact absurd (Option.some.inj hsame) (by decide)

end LibreFang.Net
