import LibreFang.Session.Lowercase

/-!
# When stripping works

The bytes found in the lowercase copy are right exactly where the text before them has as many
bytes in lower case.

* `Steady`: the text before every match has as many bytes in lower case.
* **`steady_of_replaced`**, **`replaceMarker_of_steady`**: a pass on a text that is steady for its
  marker, and on no other, replaces the marker only.
* **`effective_iff`**: stripping is effective exactly when the text is steady for all markers.
-/

namespace LibreFang.Session

open Slices Matches

/-! ## One pass -/

/-- A word that the pass for it finds and removes: it overlaps neither itself nor what replaces
it. -/
structure Searchable (m : List Char) : Prop where
  plain : Plain m
  nonempty : m ≠ []
  borderless : Borderless m
  apart : Apart m markerRemoved

/-- The text before every occurrence of the word, ignoring case, has as many bytes in lower
case. -/
def Steady (casing : Casing) (m text : List Char) : Prop :=
  ∀ a o b, text = a ++ (o ++ b) → casing.toLowercase o = m →
    byteLen (casing.toLowercase a) = byteLen a

section Pass

variable {casing : Casing} {m marker text text' : List Char}

theorem toLowercase_eq_iff (hm : Plain m) {o : List Char} :
    casing.toLowercase o = m ↔ asciiLower o = m := by
  constructor
  · intro h
    have hp : m <+: asciiLower o := by
      rw [← prefix_lowercaseFrom casing hm []]
      exact h ▸ List.prefix_refl _
    obtain ⟨o, b, rfl, ho⟩ := exists_of_prefix_asciiLower hp
    rw [Casing.toLowercase, lowercaseFrom_ascii casing (ascii_of_asciiLower ho hm.ascii), ho,
      List.append_right_eq_self] at h
    cases b with
    | nil => rwa [List.append_nil]
    | cons c b =>
      obtain ⟨d, ds, hl, -⟩ := lower_eq_cons casing ([] ++ o) c b
      rw [Casing.lowercaseFrom, hl] at h
      cases h
  · intro h
    rw [toLowercase_ascii casing (ascii_of_asciiLower h hm.ascii), h]

theorem steady_iff (hm : Plain m) : Steady casing m text ↔
    ∀ a o b, text = a ++ (o ++ b) → asciiLower o = m → total (lowerSize casing) a = byteLen a := by
  simp only [Steady, toLowercase_eq_iff hm, byteLen_toLowercase]

theorem mem_starts {p pos : ℕ} {parts : List (List Char × List Char)} (rest : List Char)
    (h : p ∈ starts pos parts) : ∃ a part b, part ∈ parts ∧
      weave id parts rest = a ++ (part.2 ++ b) ∧ p = pos + byteLen a := by
  induction parts generalizing pos with
  | nil => simp [starts] at h
  | cons part parts ih =>
    rw [starts, List.mem_cons] at h
    rcases h with rfl | h
    · exact ⟨part.1, part, weave id parts rest, List.mem_cons_self, rfl, rfl⟩
    · obtain ⟨a, found, b, hfound, heq, rfl⟩ := ih h
      refine ⟨part.1 ++ (part.2 ++ a), found, b, List.mem_cons_of_mem _ hfound, ?_, ?_⟩
      · rw [weave, heq]
        simp
      · rw [byteLen_append, byteLen_append]
        omega

theorem append_byteLen_inj {a a' b b' : List Char} (h : a ++ b = a' ++ b')
    (hlen : byteLen a = byteLen a') : a = a' := by
  have hcut := cut_append a' b'
  rw [← h, ← hlen, cut_append] at hcut
  exact congrArg Prod.fst (Option.some.inj hcut)

/-- **A pass that replaces its marker only was made on a steady text.** -/
theorem steady_of_replaced (hm : Searchable m) (hmarker : casing.toLowercase marker = m)
    (h : Replaced casing marker text text') : Steady casing m text := by
  obtain ⟨parts, rest, htext, -, hparts, hstarts⟩ := h
  rw [markerPositions, hmarker, Casing.toLowercase] at hstarts
  -- where the copy has the marker, the text has it
  have hsub : positions Char.utf8Size m 0 0 (casing.lowercaseFrom [] text) ⊆
      positions Char.utf8Size m 0 0 (asciiLower text) := by
    intro p hp
    rw [← hstarts] at hp
    obtain ⟨a, part, b, hpart, heq, rfl⟩ := mem_starts rest hp
    have ho := (toLowercase_eq_iff hm.plain).mp ((hparts part hpart).trans hmarker)
    rw [htext, heq, asciiLower_append, asciiLower_append, ho, ← byteLen_asciiLower a]
    exact mem_positions hm.nonempty hm.borderless 0 _ _
  have hpairs := forall₂_positions casing hm.plain hm.nonempty [] text 0 0
  have heq := eq_of_subset_of_pairwise_lt
    (pairwise_lt_positions Char.utf8Size_pos m 0 0 (casing.lowercaseFrom [] text)).2
    (pairwise_lt_positions Char.utf8Size_pos m 0 0 (asciiLower text)).2 hsub hpairs.length_eq.ge
  rw [heq] at hpairs
  refine (steady_iff hm.plain).mpr fun a o b hab ho => ?_
  have hmem : 0 + byteLen a ∈ positions Char.utf8Size m 0 0 (asciiLower text) := by
    rw [hab, asciiLower_append, asciiLower_append, ho, ← byteLen_asciiLower a]
    exact mem_positions hm.nonempty hm.borderless 0 _ _
  obtain ⟨a', o', b', htext', -, hl, hr⟩ := List.forall₂_same.mp hpairs _ hmem
  obtain rfl := append_byteLen_inj (hab.symm.trans htext') (by omega)
  omega

theorem newResult_weave {len : ℕ} (parts : List (List Char × List Char)) (rest pre : List Char)
    (hlen : ∀ part ∈ parts, byteLen part.2 = len) :
    newResult (pre ++ weave id parts rest) len (byteLen pre) (starts (byteLen pre) parts) =
      some (weave (fun _ => markerRemoved) parts rest) := by
  induction parts generalizing pre with
  | nil =>
    rw [starts, newResult, weave, cut_append]
    rfl
  | cons part parts ih =>
    have hpart := hlen part List.mem_cons_self
    have hslice := slice_append pre part.1 (part.2 ++ weave id parts rest)
    rw [List.append_assoc, byteLen_append] at hslice
    have hrest := ih (pre ++ part.1 ++ part.2) fun q hq => hlen q (List.mem_cons_of_mem _ hq)
    rw [byteLen_append, byteLen_append, List.append_assoc, List.append_assoc] at hrest
    rw [← hpart] at hrest ⊢
    rw [starts, newResult, weave, id, hslice, Option.bind_some, hrest]
    rfl

theorem asciiLower_markerRemoved : asciiLower markerRemoved = markerRemoved := by decide

theorem ascii_of_all {s : List Char} (h : (s.all fun c => c.toNat < 128) = true) : Ascii s :=
  fun c hc => of_decide_eq_true (List.all_eq_true.mp h c hc)

theorem ascii_markerRemoved : Ascii markerRemoved := ascii_of_all (by decide)

theorem prefix_of_prefix_weave (hm : Searchable m) {parts : List (List Char × List Char)}
    {c : Char} {rest : List Char}
    (h : m <+: asciiLower (c :: weave (fun _ => markerRemoved) parts rest)) :
    m <+: asciiLower (c :: weave id parts rest) := by
  cases parts with
  | nil => exact h
  | cons part parts =>
    rw [weave, ← List.cons_append, asciiLower_append] at h ⊢
    refine List.IsPrefix.trans ?_ (List.prefix_append _ _)
    obtain ⟨t, ht⟩ := h
    rw [asciiLower_append, asciiLower_markerRemoved] at ht
    have hdis := @disjoint_of_apart _ m markerRemoved _ _ [] _ hm.apart ht.symm
    simp only [List.length_nil, asciiLower_cons, List.length_cons] at hdis
    refine List.prefix_of_prefix_length_le ⟨t, ht⟩ (List.prefix_append _ _) ?_
    simp only [asciiLower_cons, List.length_cons]
    omega

/-- **The text at its matches**: cut there, and cleared of the word when the matches are
replaced. -/
theorem exists_parts (hm : Searchable m) (s : List Char) :
    ∃ parts rest, s = weave id parts rest ∧ (∀ part ∈ parts, asciiLower part.2 = m) ∧
      (∀ pos, starts pos parts = positions Char.utf8Size m 0 pos (asciiLower s)) ∧
      ¬ m <:+: asciiLower (weave (fun _ => markerRemoved) parts rest) := by
  -- a search takes a match off the text, or the character it looks at
  induction h : s.length using Nat.strongRecOn generalizing s with
  | _ n ih =>
    by_cases hp : m <+: asciiLower s
    · obtain ⟨o, b, rfl, ho⟩ := exists_of_prefix_asciiLower hp
      have hlt : b.length < n := h ▸ length_lt_of_match hm.nonempty ho b
      obtain ⟨parts, rest, rfl, hparts, hstarts, hclear⟩ := ih b.length hlt b rfl
      refine ⟨([], o) :: parts, rest, rfl, ?_, fun pos => ?_, ?_⟩
      · rintro part hpart
        rcases List.mem_cons.mp hpart with rfl | hpart
        · exact ho
        · exact hparts part hpart
      · rw [asciiLower_append, ho, positions_match hm.nonempty, starts, hstarts]
        have hlen : byteLen o = total Char.utf8Size m := ho ▸ (byteLen_asciiLower o).symm
        rw [byteLen_nil, Nat.add_zero, hlen]
      · rw [weave, List.nil_append, asciiLower_append, asciiLower_markerRemoved]
        have hiff := infix_iff_of_apart (a := [])
          (b := asciiLower (weave (fun _ => markerRemoved) parts rest)) hm.apart
        rw [List.nil_append] at hiff
        rw [hiff]
        rintro (hnil | hinf)
        · exact hm.nonempty (List.infix_nil.mp hnil)
        · exact hclear hinf
    · cases s with
      | nil =>
        exact ⟨[], [], rfl, by simp, fun pos => rfl,
          fun hinf => hm.nonempty (List.infix_nil.mp hinf)⟩
      | cons c s =>
        obtain ⟨parts, rest, rfl, hparts, hstarts, hclear⟩ :=
          ih s.length (h ▸ Nat.lt_succ_self _) s rfl
        have hfree : ¬ m <:+: asciiLower (c :: weave (fun _ => markerRemoved) parts rest) := by
          rw [asciiLower_cons, List.infix_cons_iff]
          rintro (hpre | hinf)
          · exact hp (prefix_of_prefix_weave hm hpre)
          · exact hclear hinf
        have hpos : ∀ pos, positions Char.utf8Size m 0 pos (asciiLower (c :: weave id parts rest)) =
            starts (pos + c.utf8Size) parts := by
          intro pos
          rw [asciiLower_cons] at hp ⊢
          rw [positions_of_not_start hp, hstarts, utf8Size_toLower]
        cases parts with
        | nil => exact ⟨[], c :: rest, rfl, by simp, fun pos => (hpos pos).symm, hfree⟩
        | cons part parts =>
          refine ⟨(c :: part.1, part.2) :: parts, rest, rfl, ?_, fun pos => ?_, hfree⟩
          · rintro q hq
            rcases List.mem_cons.mp hq with rfl | hq
            · exact hparts part List.mem_cons_self
            · exact hparts q (List.mem_cons_of_mem _ hq)
          · rw [hpos, starts, starts, byteLen_cons, ← Nat.add_assoc]

/-- **On a steady text a pass returns**, replaces its marker only, and leaves none. -/
theorem replaceMarker_of_steady (hm : Searchable m) (hascii : Ascii marker)
    (hmarker : asciiLower marker = m) (h : Steady casing m text) :
    ∃ text', replaceMarker casing marker text = some text' ∧
      Replaced casing marker text text' ∧ ¬ m <:+: asciiLower text' := by
  have hlower : casing.toLowercase marker = m := by rw [toLowercase_ascii casing hascii, hmarker]
  obtain ⟨parts, rest, rfl, hparts, hstarts, hclear⟩ := exists_parts hm text
  -- in a steady text the copy has its matches where the text has them
  have hpairs := forall₂_positions casing hm.plain hm.nonempty [] (weave id parts rest) 0 0
  have hsame : List.Forall₂ (· = ·)
      (positions Char.utf8Size m 0 0 (casing.lowercaseFrom [] (weave id parts rest)))
      (positions Char.utf8Size m 0 0 (asciiLower (weave id parts rest))) := by
    refine hpairs.imp ?_
    rintro l r ⟨a, o, b, heq, ho, rfl, rfl⟩
    rw [(steady_iff hm.plain).mp h a o b heq ho]
  rw [List.forall₂_eq_eq_eq, ← hstarts 0] at hsame
  have hfound : markerPositions casing marker (weave id parts rest) = starts 0 parts := by
    rw [markerPositions, hlower]
    exact hsame
  refine ⟨_, ?_, ⟨parts, rest, rfl, rfl, fun part hpart => ?_, hfound.symm⟩, hclear⟩
  · rw [replaceMarker, hfound]
    refine newResult_weave parts rest [] fun part hpart => ?_
    rw [← byteLen_asciiLower, hparts part hpart, ← hmarker, byteLen_asciiLower]
  · rw [hlower]
    exact (toLowercase_eq_iff hm.plain).mpr (hparts part hpart)

/-! ## What a pass leaves of the other markers -/

section Others

variable {q : List Char}

theorem steady_append_iff (hq : Plain q) {w : List Char} (hw : Ascii w)
    (hapart : Apart q (asciiLower w)) (a b : List Char) : Steady casing q (a ++ (w ++ b)) ↔
      Steady casing q a ∧ ∀ x o y, b = x ++ (o ++ y) → asciiLower o = q →
        total (lowerSize casing) (a ++ x) = byteLen (a ++ x) := by
  have hsize := total_lowerSize_ascii casing hw
  rw [steady_iff hq, steady_iff hq]
  constructor
  · intro h
    refine ⟨?_, ?_⟩
    · rintro a' o x rfl ho
      exact h a' o (x ++ (w ++ b)) (by simp) ho
    · rintro x o y rfl ho
      have := h (a ++ (w ++ x)) o y (by simp) ho
      simp only [total_append, byteLen_append] at this ⊢
      omega
  · rintro ⟨hbefore, hbehind⟩ a' o b' heq ho
    have hlower := congrArg asciiLower heq
    simp only [asciiLower_append, ho] at hlower
    rcases disjoint_of_apart hapart hlower with hle | hle
    · simp only [length_asciiLower] at hle
      obtain ⟨x, rfl, rfl⟩ := exists_of_length_le heq.symm hle
      have := hbehind x o b' rfl ho
      simp only [total_append, byteLen_append] at this ⊢
      omega
    · simp only [length_asciiLower, ← ho] at hle
      obtain ⟨x, rfl, -⟩ := exists_of_length_le heq hle
      exact hbefore a' o x rfl ho

theorem steady_weave_iff (hq : Plain q) (hm : Ascii m) (hqm : Apart q m)
    (hqr : Apart q markerRemoved) (parts : List (List Char × List Char)) (rest pre : List Char)
    (hparts : ∀ part ∈ parts, asciiLower part.2 = m) :
    Steady casing q (pre ++ weave id parts rest) ↔
      Steady casing q (pre ++ weave (fun _ => markerRemoved) parts rest) := by
  induction parts generalizing pre with
  | nil => rfl
  | cons part parts ih =>
    have hpart := hparts part List.mem_cons_self
    have hrest := ih (pre ++ part.1 ++ markerRemoved) fun p hp =>
      hparts p (List.mem_cons_of_mem _ hp)
    have hstep := @steady_append_iff casing _ hq _ (ascii_of_asciiLower hpart hm)
      (by rwa [hpart]) (pre ++ part.1) (weave id parts rest)
    rw [← steady_append_iff hq ascii_markerRemoved (by rwa [asciiLower_markerRemoved])] at hstep
    simp only [weave, id, List.append_assoc] at hstep hrest ⊢
    exact hstep.trans hrest

theorem infix_weave_iff (hqm : Apart q m) (hqr : Apart q markerRemoved)
    (parts : List (List Char × List Char)) (rest : List Char)
    (hparts : ∀ part ∈ parts, asciiLower part.2 = m) :
    q <:+: asciiLower (weave id parts rest) ↔
      q <:+: asciiLower (weave (fun _ => markerRemoved) parts rest) := by
  induction parts with
  | nil => rfl
  | cons part parts ih =>
    have hpart := hparts part List.mem_cons_self
    simp only [weave, id, asciiLower_append, hpart, asciiLower_markerRemoved]
    rw [infix_iff_of_apart hqm, infix_iff_of_apart hqr,
      ih fun p hp => hparts p (List.mem_cons_of_mem _ hp)]

/-- **A pass leaves the other markers as they were.** -/
theorem others_of_replaced (hm : Plain m) (hmarker : casing.toLowercase marker = m) (hq : Plain q)
    (hqm : Apart q m) (hqr : Apart q markerRemoved) (h : Replaced casing marker text text') :
    (Steady casing q text ↔ Steady casing q text') ∧
      (q <:+: asciiLower text ↔ q <:+: asciiLower text') := by
  obtain ⟨parts, rest, rfl, rfl, hparts, -⟩ := h
  have hparts : ∀ part ∈ parts, asciiLower part.2 = m := fun part hpart =>
    (toLowercase_eq_iff hm).mp ((hparts part hpart).trans hmarker)
  exact ⟨steady_weave_iff hq hm.ascii hqm hqr parts rest [] hparts,
    infix_weave_iff hqm hqr parts rest hparts⟩

end Others

end Pass

/-! ## All passes -/

section Run

variable {casing : Casing}

/-- Markers that the passes find and remove, none of them at the cost of another one. -/
structure WellSeparated (markers : List (List Char)) : Prop where
  ascii : ∀ marker ∈ markers, Ascii marker
  searchable : ∀ marker ∈ markers, Searchable (asciiLower marker)
  apart : markers.Pairwise fun marker marker' =>
    Apart (asciiLower marker') (asciiLower marker) ∧ Apart (asciiLower marker) (asciiLower marker')

theorem WellSeparated.tail {marker : List Char} {markers : List (List Char)}
    (h : WellSeparated (marker :: markers)) : WellSeparated markers where
  ascii n hn := h.ascii n (List.mem_cons_of_mem _ hn)
  searchable n hn := h.searchable n (List.mem_cons_of_mem _ hn)
  apart := h.apart.tail

theorem steady_of_absent {m text : List Char} (hm : Plain m) (h : ¬ m <:+: asciiLower text) :
    Steady casing m text := by
  refine (steady_iff hm).mpr ?_
  rintro a o b rfl ho
  refine absurd ⟨asciiLower a, asciiLower b, ?_⟩ h
  rw [asciiLower_append, asciiLower_append, ho, List.append_assoc]

/-- The lowercase of the text before all passes has the markers that the text has. -/
def SameMarkers (casing : Casing) (lower : List Char) (markers : List (List Char))
    (text : List Char) : Prop :=
  ∀ marker ∈ markers, casing.toLowercase marker <:+: lower ↔ asciiLower marker <:+: asciiLower text

variable {lower text text' marker : List Char} {markers : List (List Char)}

theorem others_after_pass (hw : WellSeparated (marker :: markers))
    (h : Replaced casing marker text text') {n : List Char} (hn : n ∈ markers) :
    (Steady casing (asciiLower n) text ↔ Steady casing (asciiLower n) text') ∧
      (asciiLower n <:+: asciiLower text ↔ asciiLower n <:+: asciiLower text') := by
  have hmarker := hw.searchable marker List.mem_cons_self
  have hsearch := hw.searchable n (List.mem_cons_of_mem _ hn)
  have hlower := toLowercase_ascii casing (hw.ascii marker List.mem_cons_self)
  exact others_of_replaced hmarker.plain hlower hsearch.plain
    ((List.pairwise_cons.mp hw.apart).1 n hn).1 hsearch.apart h

theorem SameMarkers.after_pass (hw : WellSeparated (marker :: markers))
    (h : Replaced casing marker text text')
    (hsame : SameMarkers casing lower (marker :: markers) text) :
    SameMarkers casing lower markers text' := fun n hn =>
  (hsame n (List.mem_cons_of_mem _ hn)).trans (others_after_pass hw h hn).2

theorem allReplaced_iff (hw : WellSeparated markers)
    (hsame : SameMarkers casing lower markers text) :
    AllReplaced casing lower markers text ↔
      ∀ marker ∈ markers, Steady casing (asciiLower marker) text := by
  induction markers generalizing text with
  | nil => exact iff_of_true trivial (by simp)
  | cons marker markers ih =>
    have hascii := hw.ascii marker List.mem_cons_self
    have hm := hw.searchable marker List.mem_cons_self
    have hlower := toLowercase_ascii casing hascii
    rw [AllReplaced, List.forall_mem_cons]
    by_cases hfound : casing.toLowercase marker <:+: lower
    · rw [if_pos hfound]
      constructor
      · rintro ⟨text', -, hreplaced, hall⟩
        refine ⟨steady_of_replaced hm hlower hreplaced, fun n hn => ?_⟩
        exact (others_after_pass hw hreplaced hn).1.mpr
          ((ih hw.tail (hsame.after_pass hw hreplaced)).mp hall n hn)
      · rintro ⟨hhead, htail⟩
        obtain ⟨text', hpass, hreplaced, -⟩ := replaceMarker_of_steady hm hascii rfl hhead
        refine ⟨text', hpass, hreplaced, (ih hw.tail (hsame.after_pass hw hreplaced)).mpr ?_⟩
        exact fun n hn => (others_after_pass hw hreplaced hn).1.mp (htail n hn)
    · rw [if_neg hfound, ih hw.tail fun n hn => hsame n (List.mem_cons_of_mem _ hn)]
      have hfree := mt (hsame marker List.mem_cons_self).mpr hfound
      exact (and_iff_right (steady_of_absent hm.plain hfree)).symm

/-- **On a text steady for all markers** stripping returns a text without any of them, and any
word apart from them stays where it was. -/
theorem stripFrom_of_steady (hw : WellSeparated markers)
    (hsame : SameMarkers casing lower markers text)
    (h : ∀ marker ∈ markers, Steady casing (asciiLower marker) text) :
    ∃ out, stripFrom casing lower markers text = some out ∧
      (∀ marker ∈ markers, ¬ asciiLower marker <:+: asciiLower out) ∧
      ∀ q, Searchable q → (∀ marker ∈ markers, Apart q (asciiLower marker)) →
        (q <:+: asciiLower text ↔ q <:+: asciiLower out) := by
  induction markers generalizing text with
  | nil => exact ⟨text, rfl, by simp, fun _ _ _ => Iff.rfl⟩
  | cons marker markers ih =>
    have hascii := hw.ascii marker List.mem_cons_self
    have hm := hw.searchable marker List.mem_cons_self
    have hlower := toLowercase_ascii casing hascii
    have hapart : ∀ n ∈ markers, Apart (asciiLower marker) (asciiLower n) := fun n hn =>
      ((List.pairwise_cons.mp hw.apart).1 n hn).2
    rw [stripFrom]
    by_cases hfound : casing.toLowercase marker <:+: lower
    · rw [if_pos hfound]
      obtain ⟨text', hpass, hreplaced, hfree⟩ := replaceMarker_of_steady hm hascii rfl
        (h marker List.mem_cons_self)
      obtain ⟨out, hout, hclear, hkeep⟩ := ih hw.tail (hsame.after_pass hw hreplaced) fun n hn =>
        (others_after_pass hw hreplaced hn).1.mp (h n (List.mem_cons_of_mem _ hn))
      refine ⟨out, by rw [hpass, Option.bind_some, hout], ?_, fun q hq hqapart => ?_⟩
      · rw [List.forall_mem_cons]
        exact ⟨fun hinf => hfree ((hkeep _ hm hapart).mpr hinf), hclear⟩
      · rw [← hkeep q hq fun n hn => hqapart n (List.mem_cons_of_mem _ hn)]
        exact (others_of_replaced hm.plain hlower hq.plain (hqapart marker List.mem_cons_self)
          hq.apart hreplaced).2
    · rw [if_neg hfound]
      obtain ⟨out, hout, hclear, hkeep⟩ := ih hw.tail
        (fun n hn => hsame n (List.mem_cons_of_mem _ hn))
        fun n hn => h n (List.mem_cons_of_mem _ hn)
      refine ⟨out, hout, ?_, fun q hq hqapart => ?_⟩
      · rw [List.forall_mem_cons]
        refine ⟨fun hinf => hfound ?_, hclear⟩
        exact (hsame marker List.mem_cons_self).mpr ((hkeep _ hm hapart).mpr hinf)
      · exact hkeep q hq fun n hn => hqapart n (List.mem_cons_of_mem _ hn)

end Run

/-! ## The markers of the source -/

theorem searchable_injectionMarkers : ∀ m ∈ injectionMarkers.map asciiLower, Searchable m := by
  have h : ∀ m ∈ injectionMarkers.map asciiLower, (m.all fun c => c.toNat < 128) = true ∧
      'k' ∉ m ∧ ¬ ['i'] <:+ m ∧ m ≠ [] ∧ Borderless m ∧ Apart m markerRemoved := by decide
  intro m hm
  obtain ⟨hascii, hk, hi, hne, hborder, hapart⟩ := h m hm
  exact ⟨⟨ascii_of_all hascii, hk, hi⟩, hne, hborder, hapart⟩

theorem apart_injectionMarkers : (injectionMarkers.map asciiLower).Pairwise fun m m' =>
    Apart m' m ∧ Apart m m' := by decide

theorem wellSeparated_injectionMarkers : WellSeparated injectionMarkers where
  ascii _ hmarker := ascii_of_asciiLower rfl
    (searchable_injectionMarkers _ (List.mem_map_of_mem hmarker)).plain.ascii
  searchable _ hmarker := searchable_injectionMarkers _ (List.mem_map_of_mem hmarker)
  apart := List.pairwise_map.mp apart_injectionMarkers

/-- **Stripping is effective exactly where the lowercase copy has its markers at the bytes of the
text**: before every marker the text has as many bytes in lower case. -/
theorem effective_iff (casing : Casing) (content : List Char) :
    Effective casing content ↔ ∀ marker ∈ injectionMarkers,
      ∀ a o b, content = a ++ (o ++ b) → casing.toLowercase o = casing.toLowercase marker →
        byteLen (casing.toLowercase a) = byteLen a := by
  have hw := wellSeparated_injectionMarkers
  have hlower : ∀ marker ∈ injectionMarkers, casing.toLowercase marker = asciiLower marker :=
    fun marker hmarker => toLowercase_ascii casing (hw.ascii marker hmarker)
  have hsame : SameMarkers casing (casing.toLowercase content) injectionMarkers content := by
    intro marker hmarker
    have hm := hw.searchable marker hmarker
    rw [hlower marker hmarker]
    exact infix_lowercaseFrom casing hm.plain hm.nonempty [] content
  have hsteady : (∀ marker ∈ injectionMarkers, Steady casing (asciiLower marker) content) ↔
      ∀ marker ∈ injectionMarkers, Steady casing (casing.toLowercase marker) content :=
    forall₂_congr fun marker hmarker => by rw [hlower marker hmarker]
  rw [Effective, allReplaced_iff hw hsame, hsteady]
  refine and_iff_right_of_imp fun h => ?_
  obtain ⟨out, hout, hclear, -⟩ := stripFrom_of_steady hw hsame (hsteady.mpr h)
  refine ⟨out, hout, fun marker hmarker hinf => hclear marker hmarker ?_⟩
  have hm := hw.searchable marker hmarker
  rw [hlower marker hmarker] at hinf
  exact (infix_lowercaseFrom casing hm.plain hm.nonempty [] out).mp hinf

/-- ASCII, the Kelvin sign and the capital I with a dot in lower case. -/
def dotCasing : Casing where
  lower _ c _ :=
    if c = '\u0130' then ['i', '\u0307'] else if c = '\u212A' then ['k'] else [c.toLower]
  ascii _ c _ h := by
    have hi : c ≠ '\u0130' := by
      rintro rfl
      exact absurd h (by decide)
    have hk : c ≠ '\u212A' := by
      rintro rfl
      exact absurd h (by decide)
    rw [if_neg hi, if_neg hk]
  kelvin _ _ := rfl
  dotted _ _ := rfl
  other _ c _ h hk hi := by
    rw [if_neg hi, if_neg hk, toLower_of_le h]
    exact ⟨List.cons_ne_nil _ _, by simpa using h⟩
  size _ _ _ := rfl

/-- A marker behind a letter that takes one byte more in lower case. -/
def dottedContent : List Char := "\u0130<|system|>".toList

/-- The last slice starts behind the end of the text. -/
theorem dottedContent_not_effective : ¬ Effective dotCasing dottedContent := by
  have hpanic : stripInjectionMarkers dotCasing dottedContent = none := by decide +kernel
  rintro ⟨⟨out, hout, -⟩, -⟩
  rw [hpanic] at hout
  cases hout

end LibreFang.Session
