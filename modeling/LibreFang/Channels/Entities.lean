import Mathlib.Data.List.Infix
import LibreFang.Channels.Truncator

/-!
# Chunks and HTML entities

Where the chunks of a text are cut, and which cuts lie inside an entity.

* `IsEntity`: the entities that are to stay whole; `CutsEntity`: a cut lies inside one.
* **`cutsEntity_nextChunk_iff`**: a round cuts an entity exactly where its window does and neither
  the guard nor the fallback moves the cut.
* **`intact_iff`**: no cut lies inside an entity exactly when that holds of every round.
-/

namespace LibreFang.Channels

open Slices

/-! ## Entities -/

/-- The entities with a name. -/
def namedEntities : List String := ["&amp;", "&lt;", "&gt;", "&quot;", "&nbsp;"]

/-- An entity: one with a name, or a number in at most 16 bytes. -/
def IsEntity (e : List Char) : Prop :=
  (∃ name ∈ namedEntities, e = name.toList) ∨
    byteLen e ≤ 16 ∧ ∃ digits, digits ≠ [] ∧
      (digits.all Char.isDigit ∧ e = '&' :: '#' :: (digits ++ [';']) ∨
        digits.all Text.isAsciiHexdigit ∧ e = '&' :: '#' :: 'x' :: (digits ++ [';']))

/-- The place between the two halves of a text lies inside an entity. -/
def CutsEntity (u v : List Char) : Prop :=
  ∃ a e e' b, u = a ++ e ∧ v = e' ++ b ∧ e ≠ [] ∧ e' ≠ [] ∧ IsEntity (e ++ e')

/-- A character inside an entity. -/
def IsPlain (c : Char) : Prop := c ∉ ['&', ';', '\n', '\r']

instance (c : Char) : Decidable (IsPlain c) :=
  inferInstanceAs (Decidable (c ∉ ['&', ';', '\n', '\r']))

theorem isPlain_of_isDigit {c : Char} (h : c.isDigit = true) : IsPlain c := by
  have hall : ['&', ';', '\n', '\r'].all (fun c => !c.isDigit) = true := by decide
  intro hmem
  have hnot := List.all_eq_true.mp hall c hmem
  rw [h] at hnot
  cases hnot

theorem isPlain_of_isAsciiHexdigit {c : Char} (h : Text.isAsciiHexdigit c = true) : IsPlain c := by
  have hall : ['&', ';', '\n', '\r'].all (fun c => !Text.isAsciiHexdigit c) = true := by decide
  intro hmem
  have hnot := List.all_eq_true.mp hall c hmem
  rw [h] at hnot
  cases hnot

/-- What is inside an entity: plain characters, and whatever it begins with looks like an entity. -/
structure IsBody (body : List Char) : Prop where
  plain : ∀ c ∈ body, IsPlain c
  entityLike : ∀ q, q <+: body → q ≠ [] → isEntityLike q = true

theorem isBody_named {body : List Char}
    (h : body ∈ ["amp".toList, "lt".toList, "gt".toList, "quot".toList, "nbsp".toList]) :
    IsBody body := by
  have hall : ∀ body ∈ ["amp".toList, "lt".toList, "gt".toList, "quot".toList, "nbsp".toList],
      body.all (fun c => decide (IsPlain c)) = true ∧
        ∀ q ∈ body.inits, q ≠ [] → isEntityLike q = true := by decide
  exact ⟨fun c hc => of_decide_eq_true (List.all_eq_true.mp (hall body h).1 c hc),
    fun q hq => (hall body h).2 q ((List.mem_inits q body).mpr hq)⟩

variable {digits : List Char}

theorem isEntityLike_digits (h : digits.all Char.isDigit = true) :
    isEntityLike ('#' :: digits) = true := by
  unfold isEntityLike
  simp only [h, Bool.or_true, Bool.true_or]

theorem isEntityLike_hex (h : digits.all Text.isAsciiHexdigit = true) :
    isEntityLike ('#' :: 'x' :: digits) = true := by
  unfold isEntityLike
  simp only [h, Bool.or_true]

theorem all_of_isPrefixOf {p : Char → Bool} {q digits : List Char} (hq : q <+: digits)
    (h : digits.all p = true) : q.all p = true :=
  List.all_eq_true.mpr fun c hc => List.all_eq_true.mp h c (hq.subset hc)

theorem isBody_digits (h : digits.all Char.isDigit = true) : IsBody ('#' :: digits) := by
  refine ⟨List.forall_mem_cons.mpr ⟨by decide, fun c hc => ?_⟩, fun q hq hne => ?_⟩
  · exact isPlain_of_isDigit (List.all_eq_true.mp h c hc)
  · cases q with
    | nil => exact absurd rfl hne
    | cons c q =>
      obtain ⟨rfl, hrest⟩ := List.cons_prefix_cons.mp hq
      exact isEntityLike_digits (all_of_isPrefixOf hrest h)

theorem isBody_hex (h : digits.all Text.isAsciiHexdigit = true) :
    IsBody ('#' :: 'x' :: digits) := by
  refine ⟨List.forall_mem_cons.mpr ⟨by decide, List.forall_mem_cons.mpr ⟨by decide,
    fun c hc => ?_⟩⟩, fun q hq hne => ?_⟩
  · exact isPlain_of_isAsciiHexdigit (List.all_eq_true.mp h c hc)
  · cases q with
    | nil => exact absurd rfl hne
    | cons c q =>
      obtain ⟨rfl, htail⟩ := List.cons_prefix_cons.mp hq
      cases q with
      | nil => decide
      | cons d q =>
        obtain ⟨rfl, hrest⟩ := List.cons_prefix_cons.mp htail
        exact isEntityLike_hex (all_of_isPrefixOf hrest h)

theorem IsEntity.exists_body {e : List Char} (h : IsEntity e) :
    ∃ body, IsBody body ∧ e = '&' :: (body ++ [';']) ∧ byteLen e ≤ maxEntityLookahead := by
  rcases h with ⟨name, hname, rfl⟩ | ⟨hlen, digits, -, ⟨hdigits, rfl⟩ | ⟨hdigits, rfl⟩⟩
  · have hnamed : ∀ name ∈ namedEntities, ∃ body ∈ ["amp".toList, "lt".toList, "gt".toList,
        "quot".toList, "nbsp".toList], name.toList = '&' :: (body ++ [';']) ∧
          byteLen name.toList ≤ maxEntityLookahead := by decide
    obtain ⟨body, hbody, heq, hle⟩ := hnamed name hname
    exact ⟨body, isBody_named hbody, heq, hle⟩
  · exact ⟨'#' :: digits, isBody_digits hdigits, rfl, hlen⟩
  · exact ⟨'#' :: 'x' :: digits, isBody_hex hdigits, rfl, hlen⟩

/-! ## Cuts inside an entity -/

theorem CutsEntity.exists_parts {u v : List Char} (h : CutsEntity u v) :
    ∃ a q r b, u = a ++ '&' :: q ∧ v = r ++ ';' :: b ∧ IsBody (q ++ r) ∧
      byteLen ('&' :: (q ++ r)) < maxEntityLookahead := by
  obtain ⟨a, e, e', b, rfl, rfl, hne, hne', hentity⟩ := h
  obtain ⟨body, hbody, heq, hlen⟩ := hentity.exists_body
  obtain ⟨c, q, rfl⟩ := List.exists_cons_of_ne_nil hne
  obtain ⟨r, d, rfl⟩ : ∃ r d, e' = r ++ [d] :=
    ⟨_, _, (List.dropLast_append_getLast hne').symm⟩
  rw [List.cons_append, ← List.append_assoc] at heq
  obtain ⟨rfl, htail⟩ := List.cons.inj heq
  obtain ⟨rfl, hlast⟩ := List.append_inj' htail rfl
  obtain rfl := List.singleton_inj.mp hlast
  refine ⟨a, q, r, b, rfl, by rw [List.append_assoc]; rfl, hbody, ?_⟩
  rw [List.cons_append, ← List.append_assoc, ← List.cons_append, byteLen_append] at hlen
  exact Nat.lt_of_succ_le hlen

theorem not_cutsEntity_nil (u : List Char) : ¬ CutsEntity u [] := by
  intro h
  obtain ⟨a, q, r, b, -, hv, -⟩ := h.exists_parts
  exact List.append_ne_nil_of_right_ne_nil r (List.cons_ne_nil _ _) hv.symm

theorem not_cutsEntity_of_head {c : Char} (hc : c ∈ ['&', '\n', '\r']) (u v : List Char) :
    ¬ CutsEntity u (c :: v) := by
  intro h
  obtain ⟨a, q, r, b, -, hv, hbody, -⟩ := h.exists_parts
  cases r with
  | nil =>
    obtain ⟨rfl, -⟩ := List.cons.inj hv
    exact absurd hc (by decide)
  | cons d r =>
    obtain ⟨rfl, -⟩ := List.cons.inj hv
    have hall : ['&', '\n', '\r'] ⊆ ['&', ';', '\n', '\r'] := by simp
    exact hbody.plain c (List.mem_append_right _ List.mem_cons_self) (hall hc)

theorem not_cutsEntity_of_last {c : Char} (hc : c ∈ [';', '\n', '\r']) (u v : List Char) :
    ¬ CutsEntity (u ++ [c]) v := by
  intro h
  obtain ⟨a, q, r, b, hu, -, hbody, -⟩ := h.exists_parts
  induction q using List.reverseRecOn with
  | nil =>
    obtain ⟨-, hlast⟩ := List.append_inj' hu rfl
    obtain rfl := List.singleton_inj.mp hlast
    exact absurd hc (by decide)
  | append_singleton q d =>
    rw [← List.cons_append, ← List.append_assoc] at hu
    obtain ⟨-, hlast⟩ := List.append_inj' hu rfl
    obtain rfl := List.singleton_inj.mp hlast
    have hall : [';', '\n', '\r'] ⊆ ['&', ';', '\n', '\r'] := by simp
    exact hbody.plain c (List.mem_append_left _ (List.mem_append_right _ List.mem_cons_self))
      (hall hc)

theorem CutsEntity.append_left {u v : List Char} (h : CutsEntity u v) (x : List Char) :
    CutsEntity (x ++ u) v := by
  obtain ⟨a, e, e', b, rfl, rfl, hne, hne', hentity⟩ := h
  exact ⟨x ++ a, e, e', b, (List.append_assoc _ _ _).symm, rfl, hne, hne', hentity⟩

theorem CutsEntity.of_append {x u v : List Char} (h : CutsEntity (x ++ u) v) :
    CutsEntity u v ∨ CutsEntity x (u ++ v) := by
  obtain ⟨a, e, e', b, hu, rfl, hne, hne', hentity⟩ := h
  rcases List.append_eq_append_iff.mp hu with ⟨c, rfl, rfl⟩ | ⟨c, rfl, rfl⟩
  · exact .inl ⟨c, e, e', b, rfl, rfl, hne, hne', hentity⟩
  · by_cases hc : c = []
    · subst hc
      exact .inl ⟨[], u, e', b, rfl, rfl, hne, hne', hentity⟩
    · refine .inr ⟨a, c, u ++ e', b, rfl, (List.append_assoc _ _ _).symm, hc, ?_, ?_⟩
      · exact List.append_ne_nil_of_right_ne_nil _ hne'
      · rwa [List.append_assoc] at hentity

/-! ## The guard and the place of the split -/

theorem adjust_cases (chunk : List Char) :
    (adjustHtmlEntityBoundary chunk = some chunk ∧ ∀ a q, chunk = a ++ '&' :: q → '&' ∉ q →
        ';' ∉ q → isEntityLike q = false) ∨
      ∃ a q, chunk = a ++ '&' :: q ∧ adjustHtmlEntityBoundary chunk = some a ∧
        isEntityLike q = true := by
  unfold adjustHtmlEntityBoundary
  cases hpos : rfind '&' chunk with
  | none =>
    refine .inl ⟨rfl, fun a q heq => absurd ?_ (rfind_eq_none_iff.mp hpos)⟩
    rw [heq]
    exact List.mem_append_right a List.mem_cons_self
  | some pos =>
    obtain ⟨a, b, rfl, rfl, hlast⟩ := exists_last_of_rfind hpos
    have htail : cut 1 ('&' :: b) = some (['&'], b) := cut_append ['&'] b
    -- the last `&` is the one that is found
    have hunique (a' q : List Char) (heq : a ++ '&' :: b = a' ++ '&' :: q) (hq : '&' ∉ q) :
        q = b := by
      rcases List.append_eq_append_iff.mp heq with ⟨c, rfl, hb⟩ | ⟨c, rfl, hb⟩
      · cases c with
        | nil => exact (List.cons.inj hb).2.symm
        | cons d c =>
          refine absurd ?_ hlast
          rw [(List.cons.inj hb).2]
          exact List.mem_append_right c List.mem_cons_self
      · cases c with
        | nil => exact (List.cons.inj hb).2
        | cons d c =>
          refine absurd ?_ hq
          rw [(List.cons.inj hb).2]
          exact List.mem_append_right c List.mem_cons_self
    simp only
    rw [cut_append, Option.bind_some]
    by_cases hclosed : ';' ∈ '&' :: b
    · refine .inl ⟨if_pos hclosed, fun a' q heq hq hsemi => absurd ?_ hsemi⟩
      rw [hunique a' q heq hq]
      exact List.mem_of_ne_of_mem (by decide) hclosed
    · rw [if_neg hclosed, htail, Option.map_some]
      by_cases hentity : isEntityLike b = true
      · exact .inr ⟨a, b, rfl, by rw [if_pos hentity], hentity⟩
      · refine .inl ⟨by rw [if_neg hentity], fun a' q heq hq _ => ?_⟩
        rw [hunique a' q heq hq]
        exact Bool.eq_false_iff.mpr hentity

theorem splitAt_cases (window : List Char) :
    ∃ a b, window = a ++ b ∧ byteLen a = splitAt window ∧
      ('\n' ∉ window ∧ b = [] ∨
        '\n' ∈ window ∧ ∃ b', b = '\n' :: b' ∨ b = '\r' :: '\n' :: b') := by
  unfold splitAt
  cases hnl : rfind '\n' window with
  | none =>
    exact ⟨window, [], (List.append_nil _).symm, rfl, .inl ⟨rfind_eq_none_iff.mp hnl, rfl⟩⟩
  | some nl =>
    obtain ⟨a, b, rfl, hlen⟩ := exists_of_rfind hnl
    have hmem : '\n' ∈ a ++ '\n' :: b := List.mem_append_right a List.mem_cons_self
    simp only
    by_cases hcr : 0 < nl ∧ (bytes (a ++ '\n' :: b))[nl - 1]? = some 13
    · rw [if_pos hcr]
      obtain ⟨a', c, t, heq, hlen', hc⟩ := exists_char_of_byte hcr.2 (by decide)
      obtain rfl : c = '\r' := Char.toNat_inj.mp hc.symm
      have hsame : cut (byteLen a) (a ++ '\n' :: b) = some (a' ++ ['\r'], t) := by
        have hbytes : byteLen a = byteLen (a' ++ ['\r']) := by
          have hsize : byteLen ['\r'] = 1 := by decide
          rw [byteLen_append, hlen', hlen, hsize]
          omega
        rw [heq, hbytes, ← cut_append, List.append_assoc]
        rfl
      rw [cut_append] at hsame
      obtain ⟨-, rfl⟩ := Prod.mk.inj (Option.some.inj hsame)
      exact ⟨a', _, heq, hlen', .inr ⟨hmem, b, .inr rfl⟩⟩
    · rw [if_neg hcr]
      exact ⟨a, _, rfl, hlen, .inr ⟨hmem, b, .inl rfl⟩⟩

/-! ## One round -/

/-- What the guard leaves of a window. -/
def guardedChunk (window : List Char) : Option (List Char) :=
  (cut (splitAt window) window).bind fun halves => adjustHtmlEntityBoundary halves.1

/-- The cut at the end of a window is not moved: the window has no newline and ends with an `&`, or
it has one, the guard leaves nothing and no `;` is near. -/
def Exposed (window remaining : List Char) : Prop :=
  '\n' ∉ window ∧ window.getLast? = some '&' ∨
    '\n' ∈ window ∧ guardedChunk window = some [] ∧ findSemicolon remaining = none

variable {limit : ℕ} {remaining window tail : List Char}

theorem findSemicolon_ne_none {q r : List Char} (h : byteLen q < maxEntityLookahead) :
    findSemicolon (q ++ ';' :: r) ≠ none := by
  unfold findSemicolon
  rw [Ne, List.findIdx?_eq_none_iff]
  intro hnone
  have hbytes : (bytes (q ++ ';' :: r))[byteLen q]? = some 59 := by
    rw [bytes_append, ← length_bytes, List.getElem?_append_right le_rfl, Nat.sub_self]
    rfl
  refine absurd (hnone 59 ?_) (by decide)
  exact List.mem_of_getElem? ((List.getElem?_take_of_lt h).trans hbytes)

theorem not_mem_of_isEntityLike {q : List Char} (h : isEntityLike q = true) : '&' ∉ q := by
  unfold isEntityLike at h
  rw [Bool.or_eq_true, Bool.or_eq_true] at h
  rcases h with (h | h) | h
  · have hall : ∀ start ∈ entityStarts, '&' ∉ start.toList := by decide
    obtain ⟨start, hstart, heq⟩ := List.any_eq_true.mp h
    rw [← eq_of_beq heq]
    exact hall start hstart
  · split at h
    next digits =>
      intro hmem
      exact absurd (List.all_eq_true.mp h '&' (List.mem_of_ne_of_mem (by decide) hmem)) (by decide)
    next => cases h
  · split at h
    next digits =>
      intro hmem
      exact absurd (List.all_eq_true.mp h '&' (List.mem_of_ne_of_mem (by decide)
        (List.mem_of_ne_of_mem (by decide) hmem))) (by decide)
    next => cases h

theorem getLast?_ne_of_isEntityLike {q : List Char} (h : isEntityLike q = true) (a : List Char) :
    (a ++ '&' :: q).getLast? ≠ some '&' := by
  have hne : q ≠ [] := by
    rintro rfl
    exact absurd h (by decide)
  rw [List.getLast?_append_of_ne_nil a (List.cons_ne_nil _ _), List.getLast?_cons_of_ne_nil hne]
  exact fun hlast => not_mem_of_isEntityLike h (List.mem_of_getLast? hlast)

theorem cutsEntity_forcedChunk_iff {chunk rest v : List Char} (hne : window ≠ [])
    (hsplit : remaining = window ++ tail)
    (hforced : forcedChunk window remaining = some (chunk, rest)) (heq : remaining = chunk ++ v) :
    CutsEntity chunk v ↔ findSemicolon remaining = none ∧ CutsEntity window tail := by
  unfold forcedChunk at hforced
  rw [if_neg hne] at hforced
  cases hsemi : findSemicolon remaining with
  | some semi =>
    rw [hsemi] at hforced
    obtain ⟨a, t, rfl, rfl, -⟩ := exists_of_findSemicolon hsemi
    have hcut := cut_append (a ++ [';']) t
    rw [byteLen_append, List.append_assoc] at hcut
    obtain ⟨rfl, -⟩ := Prod.mk.inj (Option.some.inj (hforced.symm.trans hcut))
    exact iff_of_false (not_cutsEntity_of_last (by decide) a v) fun h => Option.some_ne_none _ h.1
  | none =>
    rw [hsemi, hsplit] at hforced
    simp only at hforced
    rw [cut_append, Option.map_some] at hforced
    obtain ⟨rfl, -⟩ := Prod.mk.inj (Option.some.inj hforced)
    obtain rfl := List.append_cancel_left (hsplit.symm.trans heq)
    exact (and_iff_right rfl).symm

theorem getLast?_of_cutsEntity {u v : List Char}
    (hkeep : ∀ a q, u = a ++ '&' :: q → '&' ∉ q → ';' ∉ q → isEntityLike q = false)
    (h : CutsEntity u v) : u.getLast? = some '&' := by
  obtain ⟨a, q, r, t, rfl, -, hbody, -⟩ := h.exists_parts
  have hplain : ∀ c ∈ q, IsPlain c := fun c hc => hbody.plain c (List.mem_append_left r hc)
  by_cases hq : q = []
  · rw [hq, List.getLast?_concat]
  · have hfalse := hkeep a q rfl (fun h => hplain _ h (by decide)) fun h => hplain _ h (by decide)
    rw [hbody.entityLike q (List.prefix_append q r) hq] at hfalse
    cases hfalse

theorem not_cutsEntity_of_start {q : List Char} (h : isEntityLike q = true)
    (hnone : findSemicolon ('&' :: q ++ tail) = none) : ¬ CutsEntity ('&' :: q) tail := by
  intro hcuts
  obtain ⟨a, q', r, t, heq, rfl, -, hshort⟩ := hcuts.exists_parts
  cases a with
  | nil =>
    obtain rfl := (List.cons.inj heq).2
    refine @findSemicolon_ne_none _ t hshort ?_
    rw [← hnone]
    simp only [List.cons_append, List.append_assoc]
  | cons c a =>
    refine not_mem_of_isEntityLike h ?_
    rw [(List.cons.inj heq).2]
    exact List.mem_append_right a List.mem_cons_self

/-- **One round** cuts an entity exactly where the end of its window does and the cut is not
moved. -/
theorem cutsEntity_nextChunk_iff {chunk rest v : List Char} (hne : window ≠ [])
    (htruncate : truncateToUtf16Limit remaining limit = some window)
    (hsplit : remaining = window ++ tail)
    (hnext : nextChunk limit remaining = some (chunk, rest)) (heq : remaining = chunk ++ v) :
    CutsEntity chunk v ↔ Exposed window remaining ∧ CutsEntity window tail := by
  obtain ⟨a, b, hab, hlen, hnewline⟩ := splitAt_cases window
  have hguarded : guardedChunk window = adjustHtmlEntityBoundary a := by
    unfold guardedChunk
    rw [← hlen, hab, cut_append, Option.bind_some]
  rcases adjust_cases a with ⟨hadjust, hkeep⟩ | ⟨a', q, ha, hadjust, hentity⟩
  · -- the guard leaves the chunk as it is
    rw [nextChunk_eq htruncate hsplit hab hlen hadjust (List.append_nil a).symm] at hnext
    by_cases hnil : a = []
    · rw [if_pos hnil] at hnext
      rw [cutsEntity_forcedChunk_iff hne hsplit hnext heq]
      rcases hnewline with ⟨-, rfl⟩ | ⟨hmem, -⟩
      · exact absurd (hab.trans (by rw [hnil]; rfl)) hne
      · refine and_congr_left fun _ => ⟨fun hnone => .inr ⟨hmem, ?_, hnone⟩, fun hexposed => ?_⟩
        · rw [hguarded, hadjust, hnil]
        · exact (hexposed.resolve_left fun h => h.1 hmem).2.2
    · rw [if_neg hnil] at hnext
      obtain ⟨rfl, -⟩ := Prod.mk.inj (Option.some.inj hnext)
      have hv : v = b ++ tail := by
        rw [hsplit, hab, List.append_assoc] at heq
        exact (List.append_cancel_left heq).symm
      rcases hnewline with ⟨hmem, rfl⟩ | ⟨hmem, b', hb⟩
      · rw [List.append_nil] at hab
        rw [hv, hab]
        refine ⟨fun h => ⟨.inl ⟨hab ▸ hmem, ?_⟩, h⟩, fun h => h.2⟩
        exact getLast?_of_cutsEntity hkeep h
      · refine iff_of_false ?_ fun h => ?_
        · rw [hv]
          rcases hb with rfl | rfl
          · exact not_cutsEntity_of_head (by decide) _ _
          · exact not_cutsEntity_of_head (by decide) _ _
        · have hempty := (h.1.resolve_left fun h => h.1 hmem).2.1
          rw [hguarded, hadjust] at hempty
          exact hnil (Option.some.inj hempty)
  · -- the guard drops what looks like an entity
    rw [nextChunk_eq htruncate hsplit hab hlen hadjust ha] at hnext
    have hlast (hnone : '\n' ∉ window) : window.getLast? ≠ some '&' := by
      rcases hnewline with ⟨-, rfl⟩ | ⟨hmem, -⟩
      · rw [hab, List.append_nil, ha]
        exact getLast?_ne_of_isEntityLike hentity a'
      · exact absurd hmem hnone
    by_cases hnil : a' = []
    · rw [if_pos hnil] at hnext
      rw [cutsEntity_forcedChunk_iff hne hsplit hnext heq]
      by_cases hmem : '\n' ∈ window
      · refine and_congr_left fun _ => ⟨fun hnone => .inr ⟨hmem, ?_, hnone⟩, fun hexposed => ?_⟩
        · rw [hguarded, hadjust, hnil]
        · exact (hexposed.resolve_left fun h => h.1 hmem).2.2
      · have hwindow : window = '&' :: q := by
          rcases hnewline with ⟨-, rfl⟩ | ⟨hnl, -⟩
          · rw [hab, List.append_nil, ha, hnil]
            rfl
          · exact absurd hnl hmem
        refine iff_of_false ?_ fun h => ?_
        · rintro ⟨hnone, hcuts⟩
          rw [hsplit, hwindow] at hnone
          rw [hwindow] at hcuts
          exact not_cutsEntity_of_start hentity hnone hcuts
        · rcases h.1 with hexposed | hexposed
          · exact hlast hmem hexposed.2
          · exact hmem hexposed.1
    · rw [if_neg hnil] at hnext
      obtain ⟨rfl, -⟩ := Prod.mk.inj (Option.some.inj hnext)
      refine iff_of_false ?_ fun h => ?_
      · have hv : v = '&' :: (q ++ (b ++ tail)) := by
          rw [hsplit, hab, ha, List.append_assoc, List.append_assoc] at heq
          exact (List.append_cancel_left heq).symm
        rw [hv]
        exact not_cutsEntity_of_head (by decide) _ _
      · rcases h.1 with hexposed | hexposed
        · exact hlast hexposed.1 hexposed.2
        · have hempty := hexposed.2.1
          rw [hguarded, hadjust] at hempty
          exact hnil (Option.some.inj hempty)

/-! ## All rounds -/

/-- The loop with what it skips: each chunk and the newline after it. -/
def pieces (limit : ℕ) (remaining : List Char) : List (List Char × List Char) :=
  if _ : remaining = [] then []
  else if utf16Len remaining ≤ limit then [(remaining, [])]
  else
    match _ : nextChunk limit remaining with
    | none => []
    | some (chunk, rest) =>
      (chunk, (remaining.drop chunk.length).take
        (remaining.length - chunk.length - rest.length)) :: pieces limit rest
termination_by remaining.length
decreasing_by exact length_lt_of_nextChunk ‹_› ‹_›

/-- The text that pieces make up. -/
def textOf (ps : List (List Char × List Char)) : List Char :=
  ps.flatMap fun piece => piece.1 ++ piece.2

/-- **No cut lies inside an entity**, neither after a chunk nor after a newline that is skipped. -/
def Intact (limit : ℕ) (s : List Char) : Prop :=
  ∀ front piece back, pieces limit s = front ++ piece :: back →
    ¬ CutsEntity (textOf front ++ piece.1) (piece.2 ++ textOf back) ∧
      ¬ CutsEntity (textOf front ++ (piece.1 ++ piece.2)) (textOf back)

/-- A text that is too long has no entity across the end of its window, or the cut is moved. -/
def Guarded (limit : ℕ) (remaining : List Char) : Prop :=
  limit < utf16Len remaining → ∀ window tail, truncateToUtf16Limit remaining limit = some window →
    remaining = window ++ tail → Exposed window remaining → ¬ CutsEntity window tail

/-- What is left before each round of the loop is so. -/
def RoundsGuarded (limit : ℕ) (s : List Char) : Prop :=
  ∀ front piece back, pieces limit s = front ++ piece :: back →
    Guarded limit (textOf (piece :: back))

theorem loop_induction {motive : List Char → Prop} (limit : ℕ)
    (short : ∀ remaining, utf16Len remaining ≤ limit → motive remaining)
    (round : ∀ remaining chunk sep rest, limit < utf16Len remaining →
      nextChunk limit remaining = some (chunk, rest) → Cuts limit remaining chunk sep rest →
        motive rest → motive remaining)
    (remaining : List Char) : motive remaining := by
  induction hlen : remaining.length using Nat.strongRecOn generalizing remaining with
  | _ n ih =>
    by_cases hfits : utf16Len remaining ≤ limit
    · exact short remaining hfits
    · have hne : remaining ≠ [] := by
        rintro rfl
        exact hfits (Nat.zero_le limit)
      obtain ⟨chunk, sep, rest, hnext, hcuts⟩ := nextChunk_spec limit hne
      exact round remaining chunk sep rest (not_le.mp hfits) hnext hcuts
        (ih rest.length (hlen ▸ length_lt_of_nextChunk hne hnext) rest rfl)

theorem pieces_of_le (h : utf16Len remaining ≤ limit) :
    pieces limit remaining = if remaining = [] then [] else [(remaining, [])] := by
  rw [pieces, dite_eq_ite, if_pos h]

variable {chunk sep rest : List Char}

theorem pieces_of_lt (hlong : limit < utf16Len remaining)
    (hnext : nextChunk limit remaining = some (chunk, rest))
    (hcuts : Cuts limit remaining chunk sep rest) :
    pieces limit remaining = (chunk, sep) :: pieces limit rest := by
  have hne : remaining ≠ [] := by
    rintro rfl
    exact absurd hlong (Nat.not_lt_zero limit)
  have hsep : (remaining.drop chunk.length).take
      (remaining.length - chunk.length - rest.length) = sep := by
    rw [hcuts.eq_append, List.drop_left, List.length_append, List.length_append,
      Nat.add_sub_cancel_left, Nat.add_sub_cancel, List.take_left]
  rw [pieces, dif_neg hne, if_neg (not_le.mpr hlong)]
  split
  next hnone => rw [hnone] at hnext; cases hnext
  next chunk' rest' hsome =>
    rw [hsome] at hnext
    obtain ⟨rfl, rfl⟩ := Prod.mk.inj (Option.some.inj hnext)
    rw [hsep]

theorem splitLoop_of_lt (hlong : limit < utf16Len remaining)
    (hnext : nextChunk limit remaining = some (chunk, rest))
    (hcuts : Cuts limit remaining chunk sep rest) :
    splitLoop limit remaining = (splitLoop limit rest).map (chunk :: ·) := by
  have hne : remaining ≠ [] := by
    rintro rfl
    exact absurd hlong (Nat.not_lt_zero limit)
  rw [splitLoop, dif_neg hne, if_neg (not_le.mpr hlong)]
  split
  next hnone => rw [hnone] at hnext; cases hnext
  next chunk' rest' hsome =>
    rw [hsome] at hnext
    obtain ⟨rfl, rfl⟩ := Prod.mk.inj (Option.some.inj hnext)
    rfl

theorem pieces_spec (limit : ℕ) (remaining : List Char) :
    splitLoop limit remaining = some ((pieces limit remaining).map Prod.fst) ∧
      textOf (pieces limit remaining) = remaining := by
  induction remaining using loop_induction limit with
  | short remaining hfits =>
    rw [pieces_of_le hfits, splitLoop]
    by_cases hne : remaining = []
    · rw [dif_pos hne, if_pos hne, hne]
      exact ⟨rfl, rfl⟩
    · rw [dif_neg hne, if_neg hne, if_pos hfits]
      exact ⟨rfl, by simp [textOf]⟩
  | round remaining chunk sep rest hlong hnext hcuts ih =>
    rw [pieces_of_lt hlong hnext hcuts, splitLoop_of_lt hlong hnext hcuts, ih.1]
    refine ⟨rfl, ?_⟩
    rw [textOf, List.flatMap_cons, ← textOf, ih.2, hcuts.eq_append, List.append_assoc]

/-- The chunks of a text that is not empty are its pieces without the newlines that are skipped. -/
theorem pieces_chunks {s : List Char} (hne : s ≠ []) :
    splitToUtf16Chunks s limit = some ((pieces limit s).map Prod.fst) ∧
      textOf (pieces limit s) = s := by
  obtain ⟨hsplit, htext⟩ := pieces_spec limit s
  refine ⟨?_, htext⟩
  unfold splitToUtf16Chunks
  split
  next hfits => rw [pieces_of_le hfits, if_neg hne, List.map_singleton]
  next => exact hsplit

theorem not_cutsEntity_newline {u sep v : List Char} (hsep : IsNewline sep)
    (h : ¬ CutsEntity u (sep ++ v)) : ¬ CutsEntity (u ++ sep) v := by
  rcases hsep with rfl | rfl | rfl
  · rwa [List.append_nil]
  · exact not_cutsEntity_of_last (by decide) u v
  · rw [← List.singleton_append, ← List.append_assoc]
    exact not_cutsEntity_of_last (by decide) (u ++ ['\r']) v

theorem intact_of_lt (hlong : limit < utf16Len remaining)
    (hnext : nextChunk limit remaining = some (chunk, rest))
    (hcuts : Cuts limit remaining chunk sep rest) :
    Intact limit remaining ↔ ¬ CutsEntity chunk (sep ++ rest) ∧ Intact limit rest := by
  have hpieces := pieces_of_lt hlong hnext hcuts
  have htext := (pieces_spec limit rest).2
  have hpoint (front : List (List Char × List Char)) (x : List Char) :
      textOf ((chunk, sep) :: front) ++ x = (chunk ++ sep) ++ (textOf front ++ x) := by
    simp [textOf]
  constructor
  · intro h
    refine ⟨?_, fun front piece back heq => ?_⟩
    · have hfirst := (h [] _ _ hpieces).1
      rwa [htext] at hfirst
    · have hlater := h ((chunk, sep) :: front) piece back (by rw [hpieces, heq]; rfl)
      rw [hpoint, hpoint] at hlater
      exact hlater.imp (mt fun hcut => hcut.append_left _) (mt fun hcut => hcut.append_left _)
  · rintro ⟨hfirst, hlater⟩ front piece back heq
    rw [hpieces] at heq
    have hskip := not_cutsEntity_newline hcuts.isNewline hfirst
    cases front with
    | nil =>
      obtain ⟨rfl, rfl⟩ := List.cons.inj heq
      rw [htext]
      exact ⟨hfirst, hskip⟩
    | cons p front =>
      obtain ⟨rfl, htail⟩ := List.cons.inj heq
      have hrest : textOf front ++ (piece.1 ++ (piece.2 ++ textOf back)) = rest := by
        rw [← htext, htail]
        simp [textOf]
      have hafter := hlater front piece back htail
      rw [hpoint, hpoint]
      refine ⟨fun hcut => ?_, fun hcut => ?_⟩
      · rcases hcut.of_append with hcut | hcut
        · exact hafter.1 hcut
        · rw [List.append_assoc, hrest] at hcut
          exact hskip hcut
      · rcases hcut.of_append with hcut | hcut
        · exact hafter.2 hcut
        · rw [List.append_assoc, List.append_assoc, hrest] at hcut
          exact hskip hcut

theorem roundsGuarded_of_lt (hlong : limit < utf16Len remaining)
    (hnext : nextChunk limit remaining = some (chunk, rest))
    (hcuts : Cuts limit remaining chunk sep rest) :
    RoundsGuarded limit remaining ↔ Guarded limit remaining ∧ RoundsGuarded limit rest := by
  have hpieces := pieces_of_lt hlong hnext hcuts
  have htext : textOf ((chunk, sep) :: pieces limit rest) = remaining := by
    rw [← hpieces, (pieces_spec limit remaining).2]
  constructor
  · intro h
    refine ⟨?_, fun front piece back heq => ?_⟩
    · have hfirst := h [] _ _ hpieces
      rwa [htext] at hfirst
    · exact h ((chunk, sep) :: front) piece back (by rw [hpieces, heq]; rfl)
  · rintro ⟨hfirst, hlater⟩ front piece back heq
    rw [hpieces] at heq
    cases front with
    | nil =>
      obtain ⟨rfl, rfl⟩ := List.cons.inj heq
      rwa [htext]
    | cons p front => exact hlater front piece back (List.cons.inj heq).2

theorem not_cutsEntity_iff_guarded (hlimit : 16 ≤ limit) (hlong : limit < utf16Len remaining)
    (hnext : nextChunk limit remaining = some (chunk, rest))
    (hcuts : Cuts limit remaining chunk sep rest) :
    ¬ CutsEntity chunk (sep ++ rest) ↔ Guarded limit remaining := by
  have hne : remaining ≠ [] := by
    rintro rfl
    exact absurd hlong (Nat.not_lt_zero limit)
  have hround {window tail : List Char}
      (htruncate : truncateToUtf16Limit remaining limit = some window)
      (hsplit : remaining = window ++ tail) :=
    cutsEntity_nextChunk_iff (truncate_ne_nil hne (by omega) htruncate) htruncate hsplit hnext
      hcuts.eq_append
  constructor
  · intro h _ window tail htruncate hsplit hexposed hcut
    exact h ((hround htruncate hsplit).mpr ⟨hexposed, hcut⟩)
  · intro h hcut
    obtain ⟨n, htruncate, -⟩ := exists_truncate remaining limit
    have hsplit := (List.take_append_drop n remaining).symm
    obtain ⟨hexposed, hinside⟩ := (hround htruncate hsplit).mp hcut
    exact h hlong _ _ htruncate hsplit hexposed hinside

theorem intact_of_le (h : utf16Len remaining ≤ limit) : Intact limit remaining := by
  intro front piece back heq
  have hback : piece.2 = [] ∧ back = [] := by
    rw [pieces_of_le h] at heq
    split_ifs at heq
    · exact absurd heq.symm (List.append_ne_nil_of_right_ne_nil _ (List.cons_ne_nil _ _))
    · cases front with
      | nil =>
        obtain ⟨rfl, rfl⟩ := List.cons.inj heq
        exact ⟨rfl, rfl⟩
      | cons p front =>
        exact absurd (List.cons.inj heq).2.symm
          (List.append_ne_nil_of_right_ne_nil _ (List.cons_ne_nil _ _))
  rw [hback.1, hback.2]
  exact ⟨not_cutsEntity_nil _, not_cutsEntity_nil _⟩

theorem roundsGuarded_of_le (h : utf16Len remaining ≤ limit) : RoundsGuarded limit remaining := by
  intro front piece back heq hlong
  have hle : utf16Len (textOf (piece :: back)) ≤ utf16Len remaining := by
    rw [← (pieces_spec limit remaining).2, heq]
    simp [textOf]
  exact absurd hlong (not_lt.mpr (hle.trans h))

/-- **No cut of a text lies inside an entity** exactly when every round is guarded: where the end of
its window is inside an entity, the cut is moved. -/
theorem intact_iff (hlimit : 16 ≤ limit) (s : List Char) :
    Intact limit s ↔ RoundsGuarded limit s := by
  induction s using loop_induction limit with
  | short remaining hfits => exact iff_of_true (intact_of_le hfits) (roundsGuarded_of_le hfits)
  | round remaining chunk sep rest hlong hnext hcuts ih =>
    rw [intact_of_lt hlong hnext hcuts, roundsGuarded_of_lt hlong hnext hcuts, ih,
      not_cutsEntity_iff_guarded hlimit hlong hnext hcuts]

theorem guarded_of_window (htruncate : truncateToUtf16Limit remaining limit = some window)
    (hnewline : '\n' ∉ window) (hlast : window.getLast? ≠ some '&') : Guarded limit remaining := by
  intro _ window' tail htruncate' _ hexposed
  obtain rfl := Option.some.inj (htruncate.symm.trans htruncate')
  rcases hexposed with hexposed | hexposed
  · exact absurd hexposed.2 hlast
  · exact absurd hexposed.1 hnewline

theorem intact_line : Intact 16 "say &lt; and more".toList := by
  refine (intact_iff le_rfl _).mpr ?_
  obtain ⟨chunk, sep, rest, hnext, hcuts⟩ :=
    @nextChunk_spec "say &lt; and more".toList 16 (by decide)
  have hlong : 16 < utf16Len "say &lt; and more".toList := by decide
  refine (roundsGuarded_of_lt hlong hnext hcuts).mpr ⟨?_, roundsGuarded_of_le ?_⟩
  · have htruncate := @truncate_eq 16 "say &lt; and mor".toList ['e'] (by decide)
      fun c hc => by cases hc; decide
    exact guarded_of_window htruncate (by decide) (by decide)
  · have hlen : utf16Len "say &lt; and more".toList = 17 := by decide
    have hpos := List.length_pos_iff.mpr hcuts.ne_nil
    have hunits := length_le_utf16Len chunk
    rw [hcuts.eq_append, utf16Len_append, utf16Len_append] at hlen
    omega

/-- A chunk ends with the `&` of an entity. -/
theorem ampersand_cut : ¬ Intact 16 "fifteen letters&amp;".toList := by
  intro h
  obtain ⟨chunk, sep, rest, hnext, hcuts⟩ :=
    @nextChunk_spec "fifteen letters&amp;".toList 16 (by decide)
  have hlong : 16 < utf16Len "fifteen letters&amp;".toList := by decide
  have hguarded := (not_cutsEntity_iff_guarded le_rfl hlong hnext hcuts).mp
    ((intact_of_lt hlong hnext hcuts).mp h).1
  have htruncate := @truncate_eq 16 "fifteen letters&".toList "amp;".toList (by decide)
    fun c hc => by cases hc; decide
  exact hguarded hlong _ _ htruncate rfl (.inl ⟨by decide, by decide⟩)
    ⟨"fifteen letters".toList, ['&'], "amp;".toList, [], rfl, rfl, List.cons_ne_nil _ _,
      List.cons_ne_nil _ _, .inl ⟨"&amp;", by decide, rfl⟩⟩

end LibreFang.Channels
