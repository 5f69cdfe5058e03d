import LibreFang.Lib.Occurrences
import LibreFang.Lib.Text

/-!
# Texts cut at a byte

A text is a list of characters, and is cut at a number of bytes. Between the bytes of one character
it cannot be cut.

* `byteLen`: the bytes of a text; `cut`: what is before a byte, and what is from it on.
* **`cut_eq_some_iff`**: a text is cut exactly where a character starts or the text ends.
* `isBoundary`, `floorBoundary`, `ceilBoundary`: the last place up to a byte, and the first one from
  it on, where a text can be cut; **`cut_floorBoundary`**: the longest beginning that fits is cut off.
* `slice`: what is between two bytes; **`slice_append`**, `exists_slice`.
* `bytes`: the bytes of a text; **`exists_char_of_byte`**: an ASCII byte is a character of the text,
  which can be cut before it.
-/

namespace Slices

/-- The number of bytes of a text. -/
def byteLen (s : List Char) : ℕ := (s.map Char.utf8Size).sum

@[simp] theorem byteLen_nil : byteLen [] = 0 := rfl

@[simp] theorem byteLen_cons (c : Char) (s : List Char) :
    byteLen (c :: s) = c.utf8Size + byteLen s := rfl

@[simp] theorem byteLen_append (s t : List Char) : byteLen (s ++ t) = byteLen s + byteLen t := by
  unfold byteLen
  rw [List.map_append, List.sum_append]

theorem byteLen_replicate (n : ℕ) (c : Char) : byteLen (List.replicate n c) = n * c.utf8Size := by
  induction n with
  | zero => exact (Nat.zero_mul _).symm
  | succ n ih => rw [List.replicate_succ, byteLen_cons, ih, Nat.succ_mul, Nat.add_comm]

/-- A text cut at a byte: what is before it, and what is from it on. -/
def cut : ℕ → List Char → Option (List Char × List Char)
  | 0, s => some ([], s)
  | _ + 1, [] => none
  | n + 1, c :: s =>
    if c.utf8Size ≤ n + 1 then
      (cut (n + 1 - c.utf8Size) s).map fun halves => (c :: halves.1, halves.2)
    else none

theorem cut_zero (s : List Char) : cut 0 s = some ([], s) := by
  unfold cut
  rfl

variable {s : List Char} {n : ℕ} {c : Char}

theorem cut_cons (h : c.utf8Size ≤ n) : cut n (c :: s) =
    (cut (n - c.utf8Size) s).map fun halves => (c :: halves.1, halves.2) := by
  cases n with
  | zero => exact absurd h (Nat.not_le_of_lt c.utf8Size_pos)
  | succ n => exact if_pos h

theorem cut_append (s t : List Char) : cut (byteLen s) (s ++ t) = some (s, t) := by
  induction s with
  | nil => exact cut_zero t
  | cons c s ih =>
    rw [byteLen_cons, List.cons_append, cut_cons (Nat.le_add_right _ _), Nat.add_sub_cancel_left,
      ih]
    rfl

/-- **Where a text can be cut.** -/
theorem cut_eq_some_iff {s a b : List Char} :
    cut n s = some (a, b) ↔ s = a ++ b ∧ byteLen a = n := by
  constructor
  · intro h
    induction s generalizing n a with
    | nil =>
      cases n with
      | zero =>
        rw [cut_zero] at h
        cases h
        exact ⟨rfl, rfl⟩
      | succ n => cases h
    | cons c s ih =>
      cases n with
      | zero =>
        rw [cut_zero] at h
        cases h
        exact ⟨rfl, rfl⟩
      | succ n =>
        by_cases hfits : c.utf8Size ≤ n + 1
        · rw [cut_cons hfits, Option.map_eq_some_iff] at h
          obtain ⟨⟨a', b'⟩, hcut, heq⟩ := h
          cases heq
          obtain ⟨rfl, hlen⟩ := ih hcut
          refine ⟨rfl, ?_⟩
          rw [byteLen_cons, hlen]
          exact Nat.add_sub_cancel' hfits
        · rw [cut, if_neg hfits] at h
          cases h
  · rintro ⟨rfl, rfl⟩
    exact cut_append a b

/-! ## The last place where a text can be cut -/

/-- `str::is_char_boundary`. -/
def isBoundary (s : List Char) (n : ℕ) : Bool := (cut n s).isSome

/-- The loop that goes back to a boundary. -/
def floorBoundary (s : List Char) : ℕ → ℕ
  | 0 => 0
  | n + 1 => if isBoundary s (n + 1) then n + 1 else floorBoundary s n

theorem isBoundary_zero (s : List Char) : isBoundary s 0 = true := by
  unfold isBoundary
  rw [cut_zero]
  rfl

theorem floorBoundary_of_lt (h : n < c.utf8Size) : floorBoundary (c :: s) n = 0 := by
  induction n with
  | zero => rfl
  | succ n ih =>
    have hinside : isBoundary (c :: s) (n + 1) = false := by
      unfold isBoundary
      rw [cut, if_neg (Nat.not_le_of_lt h)]
      rfl
    rw [floorBoundary, hinside, if_neg Bool.false_ne_true]
    exact ih (Nat.lt_of_succ_lt h)

theorem isBoundary_cons : isBoundary (c :: s) (c.utf8Size + n) = isBoundary s n := by
  unfold isBoundary
  rw [cut_cons (Nat.le_add_right _ _), Nat.add_sub_cancel_left, Option.isSome_map]

theorem not_isBoundary_inside (s : List Char) (t : List Char) (hpos : 0 < n)
    (hinside : n < c.utf8Size) : isBoundary (s ++ c :: t) (byteLen s + n) = false := by
  induction s with
  | nil =>
    obtain ⟨m, rfl⟩ := Nat.exists_eq_add_of_lt hpos
    rw [byteLen_nil, Nat.zero_add, Nat.zero_add, List.nil_append, isBoundary, cut,
      if_neg (Nat.not_le_of_lt (by rwa [Nat.zero_add] at hinside))]
    rfl
  | cons d s ih => rwa [byteLen_cons, Nat.add_assoc, List.cons_append, isBoundary_cons]

theorem floorBoundary_cons (c : Char) (s : List Char) (n : ℕ) :
    floorBoundary (c :: s) (c.utf8Size + n) = c.utf8Size + floorBoundary s n := by
  induction n with
  | zero =>
    obtain ⟨m, hm⟩ := Nat.exists_eq_add_of_lt c.utf8Size_pos
    have hboundary : isBoundary (c :: s) c.utf8Size = true :=
      (isBoundary_cons (n := 0)).trans (isBoundary_zero s)
    rw [Nat.zero_add] at hm
    show floorBoundary (c :: s) (c.utf8Size) = c.utf8Size
    rw [hm, floorBoundary, ← hm, hboundary, if_pos rfl]
  | succ n ih =>
    rw [← Nat.add_assoc, floorBoundary, Nat.add_assoc, isBoundary_cons, floorBoundary]
    by_cases h : isBoundary s (n + 1) = true
    · rw [if_pos h, if_pos h]
    · rw [if_neg h, if_neg h]
      exact ih

/-- **At the last boundary** the longest beginning that fits is cut off. -/
theorem cut_floorBoundary (s : List Char) (n : ℕ) :
    (cut (floorBoundary s n) s).map Prod.fst = some (Text.truncateChars n s) := by
  induction s generalizing n with
  | nil =>
    obtain hzero : floorBoundary [] n = 0 := by
      induction n with
      | zero => rfl
      | succ n ih => exact ih
    rw [hzero, cut_zero]
    rfl
  | cons c s ih =>
    unfold Text.truncateChars
    by_cases h : c.utf8Size ≤ n
    · obtain ⟨m, rfl⟩ := Nat.exists_eq_add_of_le h
      rw [floorBoundary_cons, cut_cons (Nat.le_add_right _ _), Nat.add_sub_cancel_left, if_pos h,
        Nat.add_sub_cancel_left, Option.map_map]
      have hrest := ih m
      obtain ⟨halves, hcut, heq⟩ := Option.map_eq_some_iff.mp hrest
      rw [hcut, ← heq]
      rfl
    · rw [floorBoundary_of_lt (Nat.lt_of_not_le h), cut_zero, if_neg h]
      rfl

theorem isBoundary_iff : isBoundary s n = true ↔ ∃ a b, s = a ++ b ∧ byteLen a = n := by
  unfold isBoundary
  rw [Option.isSome_iff_exists]
  constructor
  · rintro ⟨halves, h⟩
    exact ⟨halves.1, halves.2, cut_eq_some_iff.mp h⟩
  · rintro ⟨a, b, h⟩
    exact ⟨(a, b), cut_eq_some_iff.mpr h⟩

theorem floorBoundary_le (s : List Char) (n : ℕ) : floorBoundary s n ≤ n := by
  induction n with
  | zero => exact le_rfl
  | succ n ih =>
    rw [floorBoundary]
    split
    · exact le_rfl
    · omega

theorem isBoundary_floorBoundary (s : List Char) (n : ℕ) :
    isBoundary s (floorBoundary s n) = true := by
  induction n with
  | zero => exact isBoundary_zero s
  | succ n ih =>
    rw [floorBoundary]
    split
    · assumption
    · exact ih

/-- The loop that goes on to a boundary, at the latest to the end. -/
def ceilBoundary (s : List Char) (n : ℕ) : ℕ :=
  ((List.range' n (byteLen s - n)).find? (isBoundary s)).getD (byteLen s)

theorem isBoundary_ceilBoundary (s : List Char) (n : ℕ) :
    isBoundary s (ceilBoundary s n) = true := by
  unfold ceilBoundary
  cases h : (List.range' n (byteLen s - n)).find? (isBoundary s) with
  | none => exact isBoundary_iff.mpr ⟨s, [], (List.append_nil s).symm, rfl⟩
  | some m => exact List.find?_some h

theorem le_ceilBoundary (hn : n ≤ byteLen s) : n ≤ ceilBoundary s n := by
  unfold ceilBoundary
  cases h : (List.range' n (byteLen s - n)).find? (isBoundary s) with
  | none => exact hn
  | some m => exact (List.mem_range'_1.mp (List.mem_of_find?_eq_some h)).1

/-- What is between two bytes. -/
def slice (s : List Char) (i j : ℕ) : Option (List Char) :=
  (cut j s).bind fun halves => (cut i halves.1).map Prod.snd

/-- **A slice of a text** that starts and ends between characters. -/
theorem slice_append (a b c : List Char) :
    slice (a ++ b ++ c) (byteLen a) (byteLen (a ++ b)) = some b := by
  unfold slice
  rw [cut_append, Option.bind_some, cut_append]
  rfl

theorem length_le_byteLen (s : List Char) : s.length ≤ byteLen s := by
  induction s with
  | nil => exact le_rfl
  | cons c s ih =>
    rw [List.length_cons, byteLen_cons]
    have := c.utf8Size_pos
    omega

theorem exists_append_of_byteLen_le {a b a' b' : List Char} (h : a ++ b = a' ++ b')
    (hle : byteLen a ≤ byteLen a') : ∃ m, a' = a ++ m := by
  rcases List.append_eq_append_iff.mp h with ⟨m, ha', -⟩ | ⟨m, ha, -⟩
  · exact ⟨m, ha'⟩
  · have hm := length_le_byteLen m
    rw [ha, byteLen_append] at hle
    obtain rfl : m = [] := List.length_eq_zero_iff.mp (by omega)
    exact ⟨[], by rw [ha, List.append_nil, List.append_nil]⟩

theorem exists_slice {i j : ℕ} (hi : isBoundary s i = true)
    (hj : isBoundary s j = true) (hij : i ≤ j) :
    ∃ a m b, s = a ++ m ++ b ∧ byteLen a = i ∧ byteLen (a ++ m) = j ∧ slice s i j = some m := by
  obtain ⟨a, r, hs, rfl⟩ := isBoundary_iff.mp hi
  obtain ⟨a', b, hs', rfl⟩ := isBoundary_iff.mp hj
  obtain ⟨m, rfl⟩ := exists_append_of_byteLen_le (hs.symm.trans hs') hij
  refine ⟨a, m, b, hs', rfl, rfl, ?_⟩
  rw [hs']
  exact slice_append a m b

/-! ## Bytes and characters -/

/-- `str::as_bytes`. -/
def bytes (s : List Char) : List UInt8 := s.flatMap String.utf8EncodeChar

theorem bytes_append (s t : List Char) : bytes (s ++ t) = bytes s ++ bytes t :=
  List.flatMap_append

theorem length_bytes (s : List Char) : (bytes s).length = byteLen s := by
  induction s with
  | nil => rfl
  | cons c s ih =>
    rw [← List.singleton_append, bytes_append, List.length_append, ih, byteLen_append]
    congr 1
    exact List.length_flatMap.trans (by simp)

/-- **An ASCII byte is a character** of the text, which starts there. -/
theorem exists_char_of_byte {i : ℕ} {b : UInt8} (h : (bytes s)[i]? = some b)
    (hlt : b.toNat < 128) : ∃ a c t, s = a ++ c :: t ∧ byteLen a = i ∧ b.toNat = c.toNat := by
  induction s generalizing i with
  | nil => cases h
  | cons c s ih =>
    unfold bytes at h
    rw [List.flatMap_cons, List.getElem?_append, String.length_utf8EncodeChar] at h
    by_cases hi : i < c.utf8Size
    · -- a character with an ASCII byte has no other byte
      rw [if_pos hi] at h
      have heq := Text.toNat_eq_of_mem_utf8EncodeChar (List.mem_of_getElem? h) hlt
      have hsize : c.utf8Size = 1 := Char.utf8Size_eq_one_iff.mpr (by
        show c.toNat ≤ 127
        omega)
      exact ⟨[], c, s, rfl, by rw [byteLen_nil]; omega, heq⟩
    · rw [if_neg hi] at h
      obtain ⟨a, d, t, rfl, hlen, heq⟩ := ih h
      exact ⟨c :: a, d, t, rfl, by rw [byteLen_cons]; omega, heq⟩

/-- `str::rfind` of a character: the byte where it occurs last. -/
def rfind (c : Char) : List Char → Option ℕ
  | [] => none
  | d :: s =>
    match rfind c s with
    | some n => some (d.utf8Size + n)
    | none => if d = c then some 0 else none

theorem rfind_eq_none_iff : rfind c s = none ↔ c ∉ s := by
  induction s with
  | nil => exact iff_of_true rfl List.not_mem_nil
  | cons d s ih =>
    rw [rfind, List.mem_cons, not_or, ← ih]
    cases rfind c s with
    | some n => exact iff_of_false (Option.some_ne_none _) fun h => Option.some_ne_none _ h.2
    | none =>
      by_cases hd : d = c
      · simp [hd]
      · simp [hd, Ne.symm hd]

theorem exists_last_of_rfind (h : rfind c s = some n) :
    ∃ a b, s = a ++ c :: b ∧ byteLen a = n ∧ c ∉ b := by
  induction s generalizing n with
  | nil => cases h
  | cons d s ih =>
    rw [rfind] at h
    cases hrest : rfind c s with
    | some m =>
      rw [hrest] at h
      obtain ⟨a, b, rfl, hlen, hlast⟩ := ih hrest
      exact ⟨d :: a, b, rfl, by rw [byteLen_cons, hlen]; exact Option.some.inj h, hlast⟩
    | none =>
      rw [hrest] at h
      by_cases hd : d = c
      · subst hd
        exact ⟨[], s, rfl, Option.some.inj ((if_pos rfl).symm.trans h), rfind_eq_none_iff.mp hrest⟩
      · rw [if_neg hd] at h
        cases h

theorem exists_of_rfind (h : rfind c s = some n) : ∃ a b, s = a ++ c :: b ∧ byteLen a = n := by
  obtain ⟨a, b, heq, hlen, -⟩ := exists_last_of_rfind h
  exact ⟨a, b, heq, hlen⟩

/-- `str::find` of a character: the byte where it occurs first. -/
def find (c : Char) : List Char → Option ℕ
  | [] => none
  | d :: s => if d = c then some 0 else (find c s).map (d.utf8Size + ·)

theorem exists_of_find (h : find c s = some n) : ∃ a b, s = a ++ c :: b ∧ byteLen a = n := by
  induction s generalizing n with
  | nil => cases h
  | cons d s ih =>
    rw [find] at h
    by_cases hd : d = c
    · rw [if_pos hd] at h
      exact ⟨[], s, congrArg (· :: s) hd, Option.some.inj h⟩
    · rw [if_neg hd, Option.map_eq_some_iff] at h
      obtain ⟨m, hm, rfl⟩ := h
      obtain ⟨a, b, rfl, hlen⟩ := ih hm
      exact ⟨d :: a, b, rfl, by rw [byteLen_cons, hlen]⟩

/-- `str::find` of a text: the byte where it occurs first. -/
def findStr (pattern : List Char) : List Char → Option ℕ
  | [] => if pattern = [] then some 0 else none
  | c :: s =>
    if pattern <+: c :: s then some 0 else (findStr pattern s).map (c.utf8Size + ·)

theorem exists_of_findStr {pattern s : List Char} (h : findStr pattern s = some n) :
    ∃ a b, s = a ++ (pattern ++ b) ∧ byteLen a = n ∧
      ¬ Occurrences.StartsIn pattern a (pattern ++ b) := by
  induction s generalizing n with
  | nil =>
    rw [findStr] at h
    split at h
    · rename_i hnil
      exact ⟨[], [], by rw [hnil]; rfl, Option.some.inj h, Occurrences.not_startsIn_nil⟩
    · cases h
  | cons c s ih =>
    rw [findStr] at h
    by_cases hbegins : pattern <+: c :: s
    · rw [if_pos hbegins] at h
      obtain ⟨b, hb⟩ := hbegins
      exact ⟨[], b, hb.symm, Option.some.inj h, Occurrences.not_startsIn_nil⟩
    · rw [if_neg hbegins, Option.map_eq_some_iff] at h
      obtain ⟨m, hm, rfl⟩ := h
      obtain ⟨a, b, rfl, hlen, hfirst⟩ := ih hm
      refine ⟨c :: a, b, rfl, by rw [byteLen_cons, hlen], fun hstarts => ?_⟩
      exact (Occurrences.startsIn_cons.mp hstarts).elim hbegins hfirst

theorem not_startsIn_of_findStr {pattern s : List Char} (h : findStr pattern s = none) :
    ¬ Occurrences.StartsIn pattern s [] := by
  induction s with
  | nil => exact Occurrences.not_startsIn_nil
  | cons c s ih =>
    rw [findStr] at h
    by_cases hbegins : pattern <+: c :: s
    · rw [if_pos hbegins] at h
      cases h
    · rw [if_neg hbegins, Option.map_eq_none_iff] at h
      intro hstarts
      rw [Occurrences.startsIn_cons, List.append_nil] at hstarts
      exact hstarts.elim hbegins (ih h)

theorem splitOnceStr_eq_some {pattern s a b : List Char} (hne : pattern ≠ []) :
    Text.splitOnceStr pattern s = some (a, b) ↔
      s = a ++ (pattern ++ b) ∧ ¬ Occurrences.StartsIn pattern a (pattern ++ b) := by
  induction s generalizing a with
  | nil =>
    refine iff_of_false (fun h => by cases h) fun h => hne ?_
    exact (List.append_eq_nil_iff.mp (List.append_eq_nil_iff.mp h.1.symm).2).1
  | cons c s ih =>
    rw [Text.splitOnceStr]
    by_cases hbegins : pattern <+: c :: s
    · rw [if_pos (List.isPrefixOf_iff_prefix.mpr hbegins)]
      obtain ⟨rest, hrest⟩ := hbegins
      rw [← hrest, List.drop_left]
      constructor
      · intro h
        cases h
        exact ⟨rfl, Occurrences.not_startsIn_nil⟩
      · rintro ⟨heq, hfirst⟩
        cases a with
        | nil =>
          rw [List.nil_append] at heq
          rw [List.append_cancel_left heq]
        | cons d a =>
          refine absurd (Occurrences.startsIn_cons.mpr (.inl ?_)) hfirst
          rw [← List.cons_append, ← heq]
          exact List.prefix_append _ _
    · rw [if_neg (mt List.isPrefixOf_iff_prefix.mp hbegins), Option.map_eq_some_iff]
      constructor
      · rintro ⟨⟨a', b'⟩, hsplit, heq⟩
        cases heq
        obtain ⟨rfl, hfirst⟩ := ih.mp hsplit
        refine ⟨rfl, fun hstarts => ?_⟩
        exact (Occurrences.startsIn_cons.mp hstarts).elim hbegins hfirst
      · rintro ⟨heq, hfirst⟩
        cases a with
        | nil => exact absurd ⟨b, heq.symm⟩ hbegins
        | cons d a =>
          obtain ⟨rfl, hs⟩ := List.cons.inj heq
          rw [Occurrences.startsIn_cons, not_or] at hfirst
          exact ⟨(a, b), ih.mpr ⟨hs, hfirst.2⟩, rfl⟩

theorem findStr_eq {pattern : List Char} (hne : pattern ≠ []) (s : List Char) :
    findStr pattern s = (Text.splitOnceStr pattern s).map fun parts => byteLen parts.1 := by
  induction s with
  | nil => exact if_neg hne
  | cons c s ih =>
    rw [findStr, Text.splitOnceStr]
    by_cases hbegins : pattern <+: c :: s
    · rw [if_pos hbegins, if_pos (List.isPrefixOf_iff_prefix.mpr hbegins)]
      rfl
    · rw [if_neg hbegins, if_neg (mt List.isPrefixOf_iff_prefix.mp hbegins), ih, Option.map_map,
        Option.map_map]
      rfl

theorem exists_splitOnceStr {pattern : List Char} (hne : pattern ≠ []) (a b : List Char) :
    ∃ a' b', Text.splitOnceStr pattern (a ++ (pattern ++ b)) = some (a', b') ∧ a' <+: a := by
  induction a with
  | nil =>
    exact ⟨[], b, (splitOnceStr_eq_some hne).mpr ⟨rfl, Occurrences.not_startsIn_nil⟩,
      List.prefix_rfl⟩
  | cons c a ih =>
    rw [List.cons_append, Text.splitOnceStr]
    split
    · exact ⟨[], _, rfl, List.nil_prefix⟩
    · obtain ⟨a', b', hsplit, hprefix⟩ := ih
      rw [hsplit]
      exact ⟨c :: a', b', rfl, (List.prefix_cons_inj c).mpr hprefix⟩

/-! ### Ends of texts -/

theorem bytes_injective : Function.Injective bytes := by
  intro s t h
  have hutf8 (l : List Char) : bytes l = Text.utf8 (String.ofList l) := by
    rw [Text.utf8, String.toList_ofList]
    rfl
  rw [hutf8, hutf8] at h
  exact String.ofList_injective (Text.utf8_injective h)

/-- A text of ASCII characters. -/
def IsAscii (s : List Char) : Prop := ∀ c ∈ s, c.utf8Size = 1

theorem isAscii_of_all (h : (s.all fun c => c.utf8Size == 1) = true) : IsAscii s :=
  fun c hc => beq_iff_eq.mp (List.all_eq_true.mp h c hc)

theorem IsAscii.byteLen (h : IsAscii s) : Slices.byteLen s = s.length := by
  induction s with
  | nil => rfl
  | cons c s ih =>
    obtain ⟨hc, hs⟩ := List.forall_mem_cons.mp h
    rw [byteLen_cons, hc, ih hs, List.length_cons, Nat.add_comm]

theorem IsAscii.of_subset {s t : List Char} (h : IsAscii s) (hsub : t ⊆ s) : IsAscii t :=
  fun c hc => h c (hsub hc)

theorem IsAscii.isBoundary (h : IsAscii s) (hn : n ≤ Slices.byteLen s) :
    Slices.isBoundary s n = true := by
  refine isBoundary_iff.mpr ⟨s.take n, s.drop n, (List.take_append_drop n s).symm, ?_⟩
  rw [h.byteLen] at hn
  rw [(h.of_subset (List.take_subset n s)).byteLen, List.length_take_of_le hn]

/-- **Slices of a text of ASCII characters.** -/
theorem IsAscii.exists_slice (h : IsAscii s) {i j : ℕ} (hij : i ≤ j)
    (hj : j ≤ Slices.byteLen s) : ∃ m, slice s i j = some m ∧ m.length = j - i := by
  obtain ⟨a, m, b, rfl, hi, hm, hslice⟩ :=
    Slices.exists_slice (h.isBoundary (hij.trans hj)) (h.isBoundary hj) hij
  have hbytes := (h.of_subset (t := m) fun c hc => by simp [hc]).byteLen
  refine ⟨m, hslice, ?_⟩
  rw [byteLen_append] at hm
  omega

theorem IsAscii.take (h : IsAscii s) (n : ℕ) : IsAscii (s.take n) :=
  fun c hc => h c (List.mem_of_mem_take hc)

theorem IsAscii.take_bytes (h : IsAscii s) (n : ℕ) : (bytes s).take n = bytes (s.take n) := by
  conv_lhs => rw [← List.take_append_drop n s, bytes_append]
  by_cases hn : n ≤ s.length
  · refine List.take_left' ?_
    rw [length_bytes, (h.take n).byteLen, List.length_take_of_le hn]
  · rw [List.take_of_length_le (Nat.le_of_not_le hn), List.drop_eq_nil_of_le (Nat.le_of_not_le hn)]
    rw [← bytes_append, List.append_nil]
    refine List.take_of_length_le ?_
    rw [length_bytes, h.byteLen]
    exact Nat.le_of_not_le hn

theorem suffix_of_bytes {s m : List Char} (hm : IsAscii m) (h : bytes m <:+ bytes s) : m <:+ s := by
  cases m with
  | nil => exact List.nil_suffix
  | cons c m =>
    obtain ⟨x, hx⟩ := h
    have hc := List.forall_mem_cons.mp hm |>.1
    obtain ⟨b, hb⟩ := List.length_eq_one_iff.mp ((String.length_utf8EncodeChar c).trans hc)
    have hbytes : bytes (c :: m) = b :: bytes m := by
      rw [← List.singleton_append, bytes_append]
      exact congrArg (· ++ bytes m) ((List.append_nil _).trans hb)
    have hlt : b.toNat < 128 := by
      have hval : c.toNat ≤ 127 := Char.utf8Size_eq_one_iff.mp hc
      unfold String.utf8EncodeChar at hb
      dsimp only at hb
      split_ifs at hb with hone
      · rw [← (List.cons.inj hb).1, UInt8.toNat_ofNat']
        omega
      · exact absurd hval hone
      · exact absurd hval hone
      · exact absurd hval hone
    have hget : (bytes s)[x.length]? = some b := by
      rw [← hx, hbytes, List.getElem?_append_right le_rfl, Nat.sub_self]
      rfl
    obtain ⟨a, d, t, rfl, hlen, -⟩ := exists_char_of_byte hget hlt
    rw [bytes_append] at hx
    have hsplit := List.append_inj hx (by rw [length_bytes, hlen])
    rw [bytes_injective hsplit.2]
    exact List.suffix_append _ _

/-- `str::strip_prefix`. -/
def stripStart (start s : List Char) : Option (List Char) :=
  if start <+: s then some (s.drop start.length) else none

theorem stripStart_append (start s : List Char) : stripStart start (start ++ s) = some s := by
  unfold stripStart
  rw [if_pos (List.prefix_append _ _), List.drop_left]

theorem stripStart_eq_some {start s t : List Char} (h : stripStart start s = some t) :
    s = start ++ t := by
  unfold stripStart at h
  by_cases hp : start <+: s
  · rw [if_pos hp] at h
    obtain ⟨u, rfl⟩ := hp
    rw [List.drop_left] at h
    rw [Option.some.inj h]
  · rw [if_neg hp] at h
    cases h

end Slices
