import LibreFang.Privacy.PiiFilter

/-!
# What pseudonyms stand for

* **`indexToLabel_injective`**, **`pseudonym_injective`**: two numbers, or two categories, never
  have one pseudonym.
* `Known`: the names that have been given, each to one value; `known_getOrCreatePseudonym`.
* **`pseudonymize_exact`**: in a run whose passes fit, every pass replaces the matches, each by the
  pseudonym of its value, and nothing else.
-/

namespace LibreFang.Privacy

open Pieces

/-! ## Letters -/

theorem labelLoop_eq {fuel idx : ℕ} (h : idx < fuel) :
    labelLoop fuel idx =
      (if idx < 26 then [] else indexToLabel (idx / 26 - 1)) ++ [Char.ofNat (65 + idx % 26)] := by
  induction fuel using Nat.strong_induction_on generalizing idx with
  | _ fuel ih =>
    obtain ⟨fuel, rfl⟩ := Nat.exists_eq_add_one_of_ne_zero (Nat.ne_of_gt (Nat.zero_lt_of_lt h))
    rw [labelLoop]
    by_cases hlt : idx < 26
    · rw [if_pos hlt, if_pos hlt]
    · rw [if_neg hlt, if_neg hlt]
      -- both fuels are enough for the rest
      unfold indexToLabel
      rw [ih fuel (Nat.lt_succ_self fuel) (by omega), ih _ (by omega) (Nat.lt_succ_self _)]

theorem indexToLabel_eq (idx : ℕ) : indexToLabel idx =
    (if idx < 26 then [] else indexToLabel (idx / 26 - 1)) ++ [Char.ofNat (65 + idx % 26)] :=
  labelLoop_eq (Nat.lt_succ_self idx)

theorem toNat_letter (idx : ℕ) : (Char.ofNat (65 + idx % 26)).toNat = 65 + idx % 26 := by
  have hmod := Nat.mod_lt idx (by decide : 0 < 26)
  have hvalid : (65 + idx % 26).isValidChar := .inl (by omega)
  unfold Char.ofNat
  rw [dif_pos hvalid]
  rfl

theorem indexToLabel_ne_nil (idx : ℕ) : indexToLabel idx ≠ [] := by
  rw [indexToLabel_eq]
  exact List.append_ne_nil_of_right_ne_nil _ (List.cons_ne_nil _ _)

/-- **Two numbers never have the same letters.** -/
theorem indexToLabel_injective : Function.Injective indexToLabel := by
  intro a
  induction a using Nat.strong_induction_on with
  | _ a ih =>
    intro b hab
    rw [indexToLabel_eq a, indexToLabel_eq b] at hab
    obtain ⟨hfront, hlast⟩ := List.append_inj' hab rfl
    have hmod := congrArg Char.toNat (List.cons.inj hlast).1
    rw [toNat_letter, toNat_letter] at hmod
    by_cases ha : a < 26
    · by_cases hb : b < 26
      · omega
      · rw [if_pos ha, if_neg hb] at hfront
        exact absurd hfront.symm (indexToLabel_ne_nil _)
    · by_cases hb : b < 26
      · rw [if_neg ha, if_pos hb] at hfront
        exact absurd hfront (indexToLabel_ne_nil _)
      · rw [if_neg ha, if_neg hb] at hfront
        have hdiv := ih (a / 26 - 1) (by omega) hfront
        omega

theorem letter_of_mem_indexToLabel {idx : ℕ} {c : Char} (h : c ∈ indexToLabel idx) :
    65 ≤ c.toNat := by
  induction idx using Nat.strong_induction_on with
  | _ idx ih =>
    rw [indexToLabel_eq] at h
    rcases List.mem_append.mp h with h | h
    · split at h
      · cases h
      · exact ih _ (by omega) h
    · rw [List.mem_singleton.mp h, toNat_letter]
      omega

theorem dash_not_mem_indexToLabel (idx : ℕ) : '-' ∉ indexToLabel idx := fun h =>
  absurd (letter_of_mem_indexToLabel h) (by decide)

/-! ## Categories -/

theorem toUpper_injective {c d : Char} (hc : c.isLower = true) (hd : d.isLower = true)
    (h : c.toUpper = d.toUpper) : c = d := by
  have hval := congrArg Char.val h
  unfold Char.isLower at hc hd
  simp only [Bool.and_eq_true, decide_eq_true_iff] at hc hd
  unfold Char.toUpper at hval
  rw [dif_pos hc, dif_pos hd] at hval
  exact Char.ext (UInt32.add_left_inj _ |>.mp hval)

theorem capitalizeCategory_injective {s t : List Char} (hs : IsLabel s) (ht : IsLabel t)
    (h : capitalizeCategory s = capitalizeCategory t) : s = t := by
  obtain ⟨hs, -⟩ := hs
  obtain ⟨ht, -⟩ := ht
  cases s with
  | nil => cases hs
  | cons c s =>
    cases t with
    | nil => cases ht
    | cons d t =>
      obtain ⟨hhead, htail⟩ := List.cons.inj h
      rw [toUpper_injective hs ht hhead, htail]

theorem append_cons_inj_right {α : Type*} {a : α} {s t u v : List α} (hu : a ∉ u) (hv : a ∉ v)
    (h : s ++ a :: u = t ++ a :: v) : s = t ∧ u = v := by
  rcases List.append_eq_append_iff.mp h with ⟨w, rfl, hw⟩ | ⟨w, rfl, hw⟩
  · cases w with
    | nil => exact ⟨(List.append_nil s).symm, (List.cons.inj hw).2⟩
    | cons b w =>
      obtain ⟨-, rfl⟩ := List.cons.inj hw
      exact absurd (List.mem_append_right _ List.mem_cons_self) hu
  · cases w with
    | nil => exact ⟨List.append_nil t, (List.cons.inj hw).2.symm⟩
    | cons b w =>
      obtain ⟨-, rfl⟩ := List.cons.inj hw
      exact absurd (List.mem_append_right _ List.mem_cons_self) hv

/-- **Two categories or two numbers never have the same pseudonym.** -/
theorem pseudonym_injective {s t : List Char} (hs : IsLabel s) (ht : IsLabel t) {i j : ℕ}
    (h : pseudonym s i = pseudonym t j) : s = t ∧ i = j := by
  have hbody := (List.cons.inj h).2
  have hdash : ∀ k, '-' ∉ indexToLabel k ++ [']'] := by
    intro k hmem
    rcases List.mem_append.mp hmem with hmem | hmem
    · exact dash_not_mem_indexToLabel k hmem
    · exact absurd hmem (by decide)
  obtain ⟨hcategory, hletters⟩ := append_cons_inj_right (hdash i) (hdash j) hbody
  exact ⟨capitalizeCategory_injective hs ht hcategory,
    indexToLabel_injective (List.append_cancel_right hletters)⟩

theorem nameKey_injective {s t u v : List Char} (hs : IsLabel s) (ht : IsLabel t)
    (h : nameKey s u = nameKey t v) : s = t ∧ u = v := by
  rcases List.append_eq_append_iff.mp h with ⟨w, rfl, hw⟩ | ⟨w, rfl, hw⟩
  · cases w with
    | nil => exact ⟨(List.append_nil s).symm, (List.cons.inj hw).2⟩
    | cons b w =>
      obtain ⟨rfl, -⟩ := List.cons.inj hw
      exact absurd (List.mem_append_right _ List.mem_cons_self) ht.2
  · cases w with
    | nil => exact ⟨List.append_nil t, (List.cons.inj hw).2.symm⟩
    | cons b w =>
      obtain ⟨rfl, -⟩ := List.cons.inj hw
      exact absurd (List.mem_append_right _ List.mem_cons_self) hs.2

/-! ## Names -/

/-- The names that have been given: each is the pseudonym of a category with a number that has been
counted, and stands for one value. -/
structure Known (names : Names) : Prop where
  numbered : ∀ key p, names.pseudonymMap.lookup key = some p →
    ∃ label v idx, IsLabel label ∧ key = nameKey label v ∧ idx < names.counterOf label ∧
      p = pseudonym label idx
  apart : ∀ key key' p, names.pseudonymMap.lookup key = some p →
    names.pseudonymMap.lookup key' = some p → key = key'

/-- The names that were there are there. -/
def Keeps (names names' : Names) : Prop :=
  ∀ key p, names.pseudonymMap.lookup key = some p → names'.pseudonymMap.lookup key = some p

theorem Keeps.refl (names : Names) : Keeps names names := fun _ _ h => h

theorem Keeps.trans {a b c : Names} (hab : Keeps a b) (hbc : Keeps b c) : Keeps a c :=
  fun key p h => hbc key p (hab key p h)

theorem known_empty : Known .empty where
  numbered := fun _ _ h => by cases h
  apart := fun _ _ _ h => by cases h

section Naming

variable {names : Names} {v : List Char} {label : Label}

theorem nameOf_getOrCreatePseudonym (names : Names) (v category : List Char) :
    (getOrCreatePseudonym names v category).2.nameOf category v =
      some (getOrCreatePseudonym names v category).1 := by
  unfold getOrCreatePseudonym
  cases h : names.nameOf category v with
  | some existing => exact h
  | none => exact AList.lookup_insert _

theorem keeps_getOrCreatePseudonym (names : Names) (v category : List Char) :
    Keeps names (getOrCreatePseudonym names v category).2 := by
  unfold getOrCreatePseudonym
  cases h : names.nameOf category v with
  | some existing => exact Keeps.refl names
  | none =>
    intro key p hkey
    have hne : key ≠ nameKey category v := by
      rintro rfl
      exact Option.some_ne_none _ (hkey.symm.trans h)
    exact (AList.lookup_insert_ne hne).trans hkey

/-- A category has a number left for a value without a name. -/
def HasRoom (names : Names) (category value : List Char) : Prop :=
  names.nameOf category value = none → names.counterOf category + 1 < 2 ^ 32

instance (names : Names) (category value : List Char) : Decidable (HasRoom names category value) :=
  inferInstanceAs (Decidable (_ → _))

theorem known_getOrCreatePseudonym (h : Known names) (hroom : HasRoom names label.1 v) :
    Known (getOrCreatePseudonym names v label.1).2 := by
  unfold getOrCreatePseudonym
  cases hname : names.nameOf label.1 v with
  | some existing => exact h
  | none =>
    have hcount : ∀ category, (Names.counterOf ⟨names.pseudonymMap.insert (nameKey label.1 v)
        (pseudonym label.1 (names.counterOf label.1)), names.pseudonymCounters.insert label.1
          ((names.counterOf label.1 + 1) % 2 ^ 32)⟩ category) =
        if category = label.1 then names.counterOf label.1 + 1 else names.counterOf category := by
      intro category
      unfold Names.counterOf
      by_cases hcategory : category = label.1
      · rw [if_pos hcategory, hcategory]
        dsimp only
        rw [AList.lookup_insert]
        exact Nat.mod_eq_of_lt (hroom hname)
      · rw [if_neg hcategory]
        dsimp only
        rw [AList.lookup_insert_ne hcategory]
    have hfresh : ∀ key p, names.pseudonymMap.lookup key = some p →
        p ≠ pseudonym label.1 (names.counterOf label.1) := by
      -- the number has not been counted yet
      intro key p hkey heq
      obtain ⟨label', v', idx, hlabel, -, hlt, rfl⟩ := h.numbered key p hkey
      obtain ⟨rfl, rfl⟩ := pseudonym_injective hlabel label.2 heq
      exact Nat.lt_irrefl _ hlt
    refine ⟨fun key p hkey => ?_, fun key key' p hkey hkey' => ?_⟩
    · by_cases heq : key = nameKey label.1 v
      · subst heq
        dsimp only at hkey
        rw [AList.lookup_insert] at hkey
        refine ⟨label.1, v, names.counterOf label.1, label.2, rfl, ?_, (Option.some.inj hkey).symm⟩
        rw [hcount, if_pos rfl]
        exact Nat.lt_succ_self _
      · dsimp only at hkey
        rw [AList.lookup_insert_ne heq] at hkey
        obtain ⟨label', v', idx, hlabel, rfl, hlt, rfl⟩ := h.numbered key p hkey
        refine ⟨label', v', idx, hlabel, rfl, ?_, rfl⟩
        rw [hcount]
        split
        · next hsame =>
          rw [hsame] at hlt
          omega
        · exact hlt
    · dsimp only at hkey hkey'
      by_cases heq : key = nameKey label.1 v
      · subst heq
        by_cases heq' : key' = nameKey label.1 v
        · exact heq'.symm
        · rw [AList.lookup_insert] at hkey
          rw [AList.lookup_insert_ne heq'] at hkey'
          exact absurd (Option.some.inj hkey).symm (hfresh _ _ hkey')
      · by_cases heq' : key' = nameKey label.1 v
        · subst heq'
          rw [AList.lookup_insert] at hkey'
          rw [AList.lookup_insert_ne heq] at hkey
          exact absurd (Option.some.inj hkey').symm (hfresh _ _ hkey)
        · rw [AList.lookup_insert_ne heq] at hkey
          rw [AList.lookup_insert_ne heq'] at hkey'
          exact h.apart _ _ _ hkey hkey'

/-- The names after some values have been named. -/
def nameAll (label : Label) (names : Names) (vs : List (List Char)) : Names :=
  vs.foldl (fun names v => (getOrCreatePseudonym names v label.1).2) names

theorem keeps_nameAll (label : Label) (names : Names) (vs : List (List Char)) :
    Keeps names (nameAll label names vs) := by
  induction vs generalizing names with
  | nil => exact Keeps.refl names
  | cons v vs ih => exact (keeps_getOrCreatePseudonym names v label.1).trans (ih _)

theorem exists_nameAll {vs : List (List Char)} (h : v ∈ vs) :
    ∃ p, (nameAll label names vs).nameOf label.1 v = some p := by
  induction vs generalizing names with
  | nil => cases h
  | cons w vs ih =>
    rcases List.mem_cons.mp h with rfl | h
    · exact ⟨_, keeps_nameAll label _ vs _ _ (nameOf_getOrCreatePseudonym names v label.1)⟩
    · exact ih h

end Naming

/-! ## One pass -/

local instance decidableAmong (m : List Char) (earlier : List (List Char)) :
    Decidable (m ∈ earlier) :=
  decidable_of_iff (∃ x ∈ earlier, x = m)
    ⟨fun h => h.elim fun _ hx => hx.2 ▸ hx.1, fun h => Exists.intro m (And.intro h rfl)⟩

/-- How a match is written when the values in `earlier` have had their turn. -/
def partly (label : Label) (names : Names) (earlier : List (List Char)) (m : List Char) :
    List Char :=
  if m ∈ earlier then ((nameAll label names earlier).nameOf label.1 m).getD m else m

/-- The text so far is cut by a value at its own matches, and nowhere when these have had their
turn. -/
def CutsAtMatches (label : Label) (names : Names) (ps : List (Piece Char))
    (earlier : List (List Char)) (v : List Char) : Prop :=
  strSplit v (render (partly label names earlier) ps) =
    if v ∈ earlier then [render (partly label names earlier) ps]
    else chunks v (partly label names earlier) ps

instance (label : Label) (names : Names) (ps : List (Piece Char)) (earlier : List (List Char))
    (v : List Char) : Decidable (CutsAtMatches label names ps earlier v) :=
  inferInstanceAs (Decidable (_ = _))

/-- When it is the turn of a value, the text so far has it in its own matches and nowhere else, and
there is a number for it. -/
def Fits (s : State) : Act → Prop
  | .load _ => True
  | .pass (label, re) => ∀ earlier v later, values (re.pieces s.text) = earlier ++ v :: later →
    CutsAtMatches label s.names (re.pieces s.text) earlier v ∧
      HasRoom (nameAll label s.names earlier) label.1 v

/-- A pass has replaced its matches, each by the name of its value, and nothing else. -/
structure Replaced (s s' : State) (label : Label) (re : Regex) : Prop where
  named : ∀ v ∈ values (re.pieces s.text), ∃ p, s'.names.nameOf label.1 v = some p
  text_eq : s'.text =
    render (fun v => (s'.names.nameOf label.1 v).getD v) (re.pieces s.text)
  keeps : Keeps s.names s'.names
  apart : ∀ (category category' : Label) (v v' p : List Char),
    s'.names.nameOf category.1 v = some p → s'.names.nameOf category'.1 v' = some p →
      category = category' ∧ v = v'

/-- The step is right. -/
def Exact (s : State) : Act → Prop
  | .load _ => True
  | .pass (label, re) => Replaced s (step s (.pass (label, re))) label re

section Pass

variable {s : State} {label : Label} {re : Regex}

theorem nameAll_append (names : Names) (earlier : List (List Char)) (v : List Char) :
    nameAll label names (earlier ++ [v]) =
      (getOrCreatePseudonym (nameAll label names earlier) v label.1).2 := by
  unfold nameAll
  rw [List.foldl_append]
  rfl

theorem replaceMatch_again {names : Names} {ps : List (Piece Char)} {earlier : List (List Char)}
    {v : List Char} (hv : v ∈ earlier) (hcuts : CutsAtMatches label names ps earlier v) :
    replaceMatch label ⟨render (partly label names earlier) ps, nameAll label names earlier⟩ v =
      ⟨render (partly label names (earlier ++ [v])) ps, nameAll label names (earlier ++ [v])⟩ := by
  obtain ⟨p, hp⟩ : ∃ p, (nameAll label names earlier).nameOf label.1 v = some p :=
    exists_nameAll hv
  have hsame : getOrCreatePseudonym (nameAll label names earlier) v label.1 =
      (p, nameAll label names earlier) := by
    unfold getOrCreatePseudonym
    rw [hp]
  have hnames : nameAll label names (earlier ++ [v]) = nameAll label names earlier := by
    rw [nameAll_append, hsame]
  unfold CutsAtMatches at hcuts
  rw [if_pos hv] at hcuts
  unfold replaceMatch strReplace
  dsimp only
  rw [hcuts, List.intercalate_singleton, hsame, hnames]
  congr 1
  refine render_congr fun m _ => ?_
  unfold partly
  rw [hnames]
  refine if_congr ⟨List.mem_append_left _, fun hm => ?_⟩ rfl rfl
  rcases List.mem_append.mp hm with hm | hm
  · exact hm
  · rwa [List.mem_singleton.mp hm]

theorem replaceMatch_eq {names : Names} {ps : List (Piece Char)} {earlier : List (List Char)}
    {v : List Char} (hcuts : CutsAtMatches label names ps earlier v) :
    replaceMatch label ⟨render (partly label names earlier) ps, nameAll label names earlier⟩ v =
      ⟨render (partly label names (earlier ++ [v])) ps, nameAll label names (earlier ++ [v])⟩ := by
  by_cases hv : v ∈ earlier
  · exact replaceMatch_again hv hcuts
  have hname := nameOf_getOrCreatePseudonym (nameAll label names earlier) v label.1
  have hkeeps := keeps_getOrCreatePseudonym (nameAll label names earlier) v label.1
  unfold CutsAtMatches at hcuts
  rw [if_neg hv] at hcuts
  unfold replaceMatch strReplace
  dsimp only
  rw [hcuts, intercalate_chunks, nameAll_append]
  congr 1
  refine render_congr fun m _ => ?_
  unfold partly
  rw [nameAll_append]
  by_cases hm : m = v
  · subst hm
    rw [if_pos rfl, if_pos (List.mem_append_right _ List.mem_cons_self), hname, Option.getD_some]
  · rw [if_neg hm]
    by_cases hearlier : m ∈ earlier
    · obtain ⟨p, hp⟩ : ∃ p, (nameAll label names earlier).nameOf label.1 m = some p :=
        exists_nameAll hearlier
      have hp' : (getOrCreatePseudonym (nameAll label names earlier) v label.1).2.nameOf label.1 m =
          some p := hkeeps _ _ hp
      rw [if_pos hearlier, if_pos (List.mem_append_left _ hearlier), hp, hp']
    · rw [if_neg hearlier, if_neg]
      rw [List.mem_append, List.mem_singleton, not_or]
      exact ⟨hearlier, hm⟩

theorem foldl_replaceMatch (hfits : Fits s (.pass (label, re))) {earlier later : List (List Char)}
    (h : values (re.pieces s.text) = earlier ++ later) :
    earlier.foldl (replaceMatch label) s =
      ⟨render (partly label s.names earlier) (re.pieces s.text), nameAll label s.names earlier⟩ := by
  induction earlier using List.reverseRecOn generalizing later with
  | nil =>
    have hall : render (partly label s.names []) (re.pieces s.text) = s.text :=
      (render_congr fun _ _ => if_neg List.not_mem_nil).trans (re.render_pieces s.text)
    rw [hall]
    rfl
  | append_singleton earlier v ih =>
    rw [List.append_assoc, List.singleton_append] at h
    rw [List.foldl_append, ih h]
    exact replaceMatch_eq (hfits earlier v later h).1

theorem known_nameAll (h : Known s.names) (hfits : Fits s (.pass (label, re)))
    {earlier later : List (List Char)} (hvalues : values (re.pieces s.text) = earlier ++ later) :
    Known (nameAll label s.names earlier) := by
  induction earlier using List.reverseRecOn generalizing later with
  | nil => exact h
  | append_singleton earlier v ih =>
    rw [List.append_assoc, List.singleton_append] at hvalues
    unfold nameAll
    rw [List.foldl_append]
    exact known_getOrCreatePseudonym (ih hvalues) (hfits earlier v later hvalues).2

theorem replaced_of_fits (h : Known s.names) (hfits : Fits s (.pass (label, re))) :
    Replaced s (step s (.pass (label, re))) label re ∧
      Known (step s (.pass (label, re))).names := by
  have hvalues := (List.append_nil (values (re.pieces s.text))).symm
  have hknown := known_nameAll h hfits hvalues
  have hpass : step s (.pass (label, re)) =
      ⟨render (partly label s.names (values (re.pieces s.text))) (re.pieces s.text),
        nameAll label s.names (values (re.pieces s.text))⟩ := foldl_replaceMatch hfits hvalues
  rw [hpass]
  refine ⟨⟨fun v hv => exists_nameAll hv, ?_, keeps_nameAll label s.names _, ?_⟩, hknown⟩
  · exact render_congr fun v hv => if_pos hv
  · intro category category' v v' p hv hv'
    obtain ⟨hcategory, hvalue⟩ :=
      nameKey_injective category.2 category'.2 (hknown.apart _ _ _ hv hv')
    exact ⟨Subtype.ext hcategory, hvalue⟩

end Pass

theorem exact_of_fits {s : State} (h : Known s.names) {acts : List Act}
    (hfits : Runs.Along step Fits s acts) : Runs.Along step Exact s acts := by
  induction acts generalizing s with
  | nil => trivial
  | cons act acts ih =>
    cases act with
    | load text => exact ⟨trivial, ih h hfits.2⟩
    | pass pattern =>
      obtain ⟨hreplaced, hknown⟩ := replaced_of_fits h hfits.1
      exact ⟨hreplaced, ih hknown hfits.2⟩

/-- **What a filter does** in calls whose passes fit. -/
theorem pseudonymize_exact (filter : PiiFilter) (texts : List (List Char))
    (hfits : Runs.Along step Fits ⟨[], .empty⟩ (calls filter texts)) :
    Runs.Along step Exact ⟨[], .empty⟩ (calls filter texts) :=
  exact_of_fits known_empty hfits

/-! ## An address in another one -/

/-- Two addresses, the second one with another letter in front. -/
def nestedText : List Char := "b@x.io ab@x.io".toList

/-- Two addresses of which none is in the other. -/
def apartText : List Char := "b@x.io c@x.io".toList

/-- What finds the two addresses of a text. -/
def sampleRegex : Regex where
  pieces := fun s =>
    if s = nestedText then [.found "b@x.io".toList, .gap [' '], .found "ab@x.io".toList]
    else if s = apartText then [.found "b@x.io".toList, .gap [' '], .found "c@x.io".toList]
    else [.gap s]
  render_pieces := by
    intro s
    split
    · next h => exact h.symm
    · split
      · next h => exact h.symm
      · exact List.append_nil s

/-- What finds nothing. -/
def quietRegex : Regex where
  pieces := fun s => [.gap s]
  render_pieces := fun s => List.append_nil s

/-- The built-in patterns over such texts: the first one finds the addresses. -/
def sampleFilter : PiiFilter :=
  .new (fun pat => if pat.toList.head? = some '[' then some sampleRegex else some quietRegex) []

set_option maxRecDepth 2000 in
theorem patterns_sampleFilter : sampleFilter.patterns =
    [(email, sampleRegex), (phone, quietRegex), (creditCard, quietRegex), (ssn, quietRegex)] := rfl

theorem text_nested : (step ⟨nestedText, .empty⟩ (.pass (email, sampleRegex))).text =
    "[Email-A] a[Email-A]".toList := by decide

/-- An address that ends another one: the text becomes `[Email-A] a[Email-A]`. -/
theorem nested_value :
    ¬ ∀ (filter : PiiFilter) (texts : List (List Char)),
      Runs.Along step Exact ⟨[], .empty⟩ (calls filter texts) := by
  intro h
  have hcalls := h sampleFilter [nestedText]
  unfold calls call at hcalls
  rw [List.flatMap_singleton, patterns_sampleFilter] at hcalls
  have htext : (step ⟨nestedText, .empty⟩ (.pass (email, sampleRegex))).text = _ :=
    hcalls.2.1.text_eq
  rw [text_nested] at htext
  revert htext
  decide

/-- Two addresses of which none is in the other. -/
theorem pseudonymize_exact_apart :
    Runs.Along step Exact ⟨[], .empty⟩ (calls sampleFilter [apartText]) := by
  refine pseudonymize_exact _ _ ?_
  unfold calls call
  rw [List.flatMap_singleton, patterns_sampleFilter]
  have hquiet : ∀ s label, Fits s (.pass (label, quietRegex)) := by
    intro s label earlier v later hvalues
    exact absurd hvalues.symm (List.append_ne_nil_of_right_ne_nil _ (List.cons_ne_nil _ _))
  refine ⟨trivial, fun earlier v later hvalues => ?_, hquiet _ _, hquiet _ _, hquiet _ _, trivial⟩
  have hvalues' : ["b@x.io".toList, "c@x.io".toList] = earlier ++ v :: later := hvalues
  -- the first value, or the second one
  rcases earlier with - | ⟨u, - | ⟨w, earlier⟩⟩
  · obtain ⟨rfl, -⟩ := List.cons.inj hvalues'
    exact ⟨by decide, by decide⟩
  · obtain ⟨rfl, hrest⟩ := List.cons.inj hvalues'
    obtain ⟨rfl, -⟩ := List.cons.inj hrest
    exact ⟨by decide, by decide⟩
  · have hlength := congrArg List.length hvalues'
    simp at hlength

end LibreFang.Privacy
