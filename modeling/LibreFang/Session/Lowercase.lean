import LibreFang.Session.Markers

/-!
# Matches in the lowercase copy

Where a word of ASCII characters occurs in the lowercase copy of a text, and where in the text.

* `Plain`: a word in which neither the Kelvin sign nor the capital I with a dot can play a part;
  **`prefix_lowercaseFrom`**: it starts the copy exactly where it starts the text.
* **`forall₂_positions`**: the matches of the copy, beside the matches of the text.
-/

namespace LibreFang.Session

open Slices Matches

/-! ## Characters in lower case -/

theorem toNat_toLower (c : Char) :
    c.toLower.toNat = if 65 ≤ c.toNat ∧ c.toNat ≤ 90 then c.toNat + 32 else c.toNat := by
  unfold Char.toLower
  split
  · next h =>
    have hlo : 65 ≤ c.toNat := h.1
    have hhi : c.toNat ≤ 90 := h.2
    rw [if_pos ⟨hlo, hhi⟩]
    show (c.val + 32).toNat = c.val.toNat + 32
    have : c.val.toNat ≤ 90 := hhi
    rw [UInt32.toNat_add]
    exact Nat.mod_eq_of_lt (by show c.val.toNat + 32 < 2 ^ 32; omega)
  · next h =>
    rw [if_neg]
    exact h

theorem toLower_of_le {c : Char} (h : 128 ≤ c.toNat) : c.toLower = c := by
  refine Char.toNat_inj.mp ?_
  rw [toNat_toLower, if_neg (by omega)]

theorem toLower_lt {c : Char} : c.toLower.toNat < 128 ↔ c.toNat < 128 := by
  rw [toNat_toLower]
  split <;> omega

theorem utf8Size_of_lt {c : Char} (h : c.toNat < 128) : c.utf8Size = 1 := by
  unfold Char.utf8Size
  rw [if_pos]
  exact Nat.le_of_lt_succ h
/-- The text with its ASCII capitals in lower case. -/
def asciiLower (s : List Char) : List Char := s.map Char.toLower

@[simp] theorem asciiLower_nil : asciiLower [] = [] := rfl

@[simp] theorem asciiLower_cons (c : Char) (s : List Char) :
    asciiLower (c :: s) = c.toLower :: asciiLower s := rfl

@[simp] theorem asciiLower_append (s t : List Char) :
    asciiLower (s ++ t) = asciiLower s ++ asciiLower t := List.map_append

@[simp] theorem length_asciiLower (s : List Char) : (asciiLower s).length = s.length :=
  List.length_map _

theorem utf8Size_toLower (c : Char) : c.toLower.utf8Size = c.utf8Size := by
  rcases Nat.lt_or_ge c.toNat 128 with h | h
  · rw [utf8Size_of_lt (toLower_lt.mpr h), utf8Size_of_lt h]
  · rw [toLower_of_le h]

/-- A text of ASCII characters. -/
def Ascii (s : List Char) : Prop := ∀ c ∈ s, c.toNat < 128

theorem ascii_of_asciiLower {s m : List Char} (h : asciiLower s = m) (hm : Ascii m) : Ascii s := by
  intro c hc
  refine toLower_lt.mp (hm _ ?_)
  rw [← h]
  exact List.mem_map_of_mem hc

/-- A word in which neither the Kelvin sign nor the capital I with a dot can play a part. -/
structure Plain (m : List Char) : Prop where
  ascii : Ascii m
  noKelvin : 'k' ∉ m
  notDotted : ¬ ['i'] <:+ m

theorem Plain.tail {c : Char} {m : List Char} (h : Plain (c :: m)) : Plain m where
  ascii d hd := h.ascii d (List.mem_cons_of_mem _ hd)
  noKelvin hd := h.noKelvin (List.mem_cons_of_mem _ hd)
  notDotted hd := h.notDotted (hd.trans (List.suffix_cons c m))

section Lowercase

variable (casing : Casing) {a b s u m : List Char} {c : Char}

theorem lower_eq_cons (a : List Char) (c : Char) (b : List Char) :
    ∃ d ds, casing.lower a c b = d :: ds ∧ ∀ e ∈ ds, 128 ≤ e.toNat := by
  by_cases hascii : c.toNat < 128
  · exact ⟨_, _, casing.ascii a c b hascii, by simp⟩
  · by_cases hk : c = '\u212A'
    · subst hk
      exact ⟨_, _, casing.kelvin a b, by simp⟩
    · by_cases hi : c = '\u0130'
      · subst hi
        exact ⟨_, _, casing.dotted a b, by simp⟩
      · obtain ⟨hne, hall⟩ := casing.other a c b (not_lt.mp hascii) hk hi
        cases hl : casing.lower a c b with
        | nil => exact absurd hl hne
        | cons d ds => exact ⟨d, ds, rfl, fun e he => hall e (hl ▸ List.mem_cons_of_mem _ he)⟩

theorem lowercaseFrom_ascii (hu : Ascii u) (a s : List Char) :
    casing.lowercaseFrom a (u ++ s) = asciiLower u ++ casing.lowercaseFrom (a ++ u) s := by
  induction u generalizing a with
  | nil => simp
  | cons c u ih =>
    rw [List.cons_append, Casing.lowercaseFrom, casing.ascii _ _ _ (hu c List.mem_cons_self),
      ih fun d hd => hu d (List.mem_cons_of_mem _ hd)]
    simp

theorem toLowercase_ascii (hu : Ascii u) : casing.toLowercase u = asciiLower u := by
  have h := lowercaseFrom_ascii casing hu [] []
  rwa [List.append_nil, Casing.lowercaseFrom, List.append_nil] at h

/-- **A plain word starts the copy exactly where it starts the text, ignoring ASCII case.** -/
theorem prefix_lowercaseFrom (hm : Plain m) (a s : List Char) :
    m <+: casing.lowercaseFrom a s ↔ m <+: asciiLower s := by
  induction m generalizing a s with
  | nil => simp
  | cons x m ih =>
    cases s with
    | nil => simp [Casing.lowercaseFrom]
    | cons c s =>
      have hx : x.toNat < 128 := hm.ascii x List.mem_cons_self
      rw [Casing.lowercaseFrom, asciiLower_cons]
      by_cases hascii : c.toNat < 128
      · rw [casing.ascii _ _ _ hascii, List.singleton_append, List.cons_prefix_cons,
          List.cons_prefix_cons, ih hm.tail]
      · -- a character outside ASCII starts no match, neither in the text nor in the copy
        refine iff_of_false (fun h => ?_) fun h => ?_
        · by_cases hk : c = '\u212A'
          · subst hk
            rw [casing.kelvin, List.singleton_append, List.cons_prefix_cons] at h
            exact hm.noKelvin (h.1 ▸ List.mem_cons_self)
          · by_cases hi : c = '\u0130'
            · subst hi
              rw [casing.dotted, List.cons_append, List.cons_prefix_cons] at h
              obtain ⟨rfl, h⟩ := h
              cases m with
              | nil => exact hm.notDotted (List.suffix_refl _)
              | cons y m =>
                rw [List.singleton_append, List.cons_prefix_cons] at h
                have hy := hm.ascii y (by simp)
                rw [h.1] at hy
                exact absurd hy (by decide)
            · obtain ⟨hne, hall⟩ := casing.other a c s (not_lt.mp hascii) hk hi
              obtain ⟨d, ds, hl, -⟩ := lower_eq_cons casing a c s
              rw [hl, List.cons_append, List.cons_prefix_cons] at h
              have hd := hall d (hl ▸ List.mem_cons_self)
              rw [← h.1] at hd
              omega
        · rw [List.cons_prefix_cons, toLower_of_le (not_lt.mp hascii)] at h
          exact hascii (h.1 ▸ hx)

/-- The bytes of a character in lower case. -/
def lowerSize (c : Char) : ℕ := byteLen (casing.lower [] c [])

theorem byteLen_lowercaseFrom (a s : List Char) :
    byteLen (casing.lowercaseFrom a s) = total (lowerSize casing) s := by
  induction s generalizing a with
  | nil => rfl
  | cons c s ih => rw [Casing.lowercaseFrom, byteLen_append, ih, casing.size, total_cons, lowerSize]

theorem byteLen_toLowercase (s : List Char) :
    byteLen (casing.toLowercase s) = total (lowerSize casing) s := byteLen_lowercaseFrom casing [] s

theorem total_lowerSize_ascii (hu : Ascii u) : total (lowerSize casing) u = byteLen u := by
  induction u with
  | nil => rfl
  | cons c u ih =>
    have hc : c.toNat < 128 := hu c List.mem_cons_self
    rw [total_cons, byteLen_cons, ih fun d hd => hu d (List.mem_cons_of_mem _ hd), lowerSize,
      casing.ascii _ _ _ hc, byteLen_cons, byteLen_nil, utf8Size_toLower, Nat.add_zero]

end Lowercase

theorem byteLen_asciiLower (s : List Char) : byteLen (asciiLower s) = byteLen s := by
  induction s with
  | nil => rfl
  | cons c s ih => rw [asciiLower_cons, byteLen_cons, byteLen_cons, ih, utf8Size_toLower]

theorem exists_of_prefix_asciiLower {m s : List Char} (h : m <+: asciiLower s) :
    ∃ o b, s = o ++ b ∧ asciiLower o = m := by
  obtain ⟨t, ht⟩ := h
  obtain ⟨o, b, rfl, ho, -⟩ := List.map_eq_append_iff.mp ht.symm
  exact ⟨o, b, rfl, ho⟩

theorem length_lt_of_match {m o : List Char} (hne : m ≠ []) (ho : asciiLower o = m)
    (b : List Char) : b.length < (o ++ b).length := by
  have hpos := List.length_pos_iff.mpr hne
  rw [← ho, length_asciiLower] at hpos
  rw [List.length_append]
  omega

section Pairs

variable (casing : Casing) {m : List Char}

/-- The copy and the text have the same matches: at a match, the text before it starts `l` bytes
into the copy and `r` bytes into the text. -/
def Pair (m s : List Char) (x y l r : ℕ) : Prop :=
  ∃ a o b, s = a ++ (o ++ b) ∧ asciiLower o = m ∧ l = x + total (lowerSize casing) a ∧
    r = y + byteLen a

variable {casing}

theorem Pair.append {u s : List Char} {x y l r : ℕ}
    (h : Pair casing m s (x + total (lowerSize casing) u) (y + byteLen u) l r) :
    Pair casing m (u ++ s) x y l r := by
  obtain ⟨a, o, b, rfl, ho, rfl, rfl⟩ := h
  refine ⟨u ++ a, o, b, by rw [List.append_assoc], ho, ?_, ?_⟩
  · rw [total_append, Nat.add_assoc]
  · rw [byteLen_append, Nat.add_assoc]

variable (casing)

/-- **The matches of the copy, beside the matches of the text.** -/
theorem forall₂_positions (hm : Plain m) (hne : m ≠ []) (a s : List Char) (x y : ℕ) :
    List.Forall₂ (Pair casing m s x y)
      (positions Char.utf8Size m 0 x (casing.lowercaseFrom a s))
      (positions Char.utf8Size m 0 y (asciiLower s)) := by
  -- a search takes a match off the text, or the character it looks at
  induction h : s.length using Nat.strongRecOn generalizing a s x y with
  | _ n ih =>
    by_cases hp : m <+: asciiLower s
    · obtain ⟨o, b, rfl, ho⟩ := exists_of_prefix_asciiLower hp
      have hascii : Ascii o := ascii_of_asciiLower ho hm.ascii
      have hlt : b.length < n := h ▸ length_lt_of_match hne ho b
      have hlen : byteLen m = byteLen o := ho ▸ byteLen_asciiLower o
      rw [lowercaseFrom_ascii casing hascii, asciiLower_append, ho, positions_match hne,
        positions_match hne]
      refine .cons ⟨[], o, b, rfl, ho, rfl, rfl⟩ ?_
      refine (ih b.length hlt _ b _ _ rfl).imp fun l r hlr => Pair.append ?_
      rw [total_lowerSize_ascii casing hascii, ← hlen]
      exact hlr
    · cases s with
      | nil => exact .nil
      | cons c s =>
        obtain ⟨e, m, rfl⟩ := List.exists_cons_of_ne_nil hne
        obtain ⟨d, ds, hl, hds⟩ := lower_eq_cons casing a c s
        have hcopy : ¬ e :: m <+: d :: (ds ++ casing.lowercaseFrom (a ++ [c]) s) := by
          rw [← prefix_lowercaseFrom casing hm a, Casing.lowercaseFrom, hl, List.cons_append] at hp
          exact hp
        have hhead : e ∉ ds := fun he =>
          absurd (hm.ascii e List.mem_cons_self) (not_lt.mpr (hds e he))
        rw [asciiLower_cons] at hp ⊢
        rw [Casing.lowercaseFrom, hl, List.cons_append, positions_of_not_start hcopy,
          positions_of_head_not_mem hhead, positions_of_not_start hp]
        refine (ih s.length (h ▸ Nat.lt_succ_self _) _ s _ _ rfl).imp fun l r hlr => ?_
        refine Pair.append (u := [c]) ?_
        have hsize : total (lowerSize casing) [c] = d.utf8Size + total Char.utf8Size ds := by
          rw [total_cons, total_nil, Nat.add_zero, lowerSize, ← casing.size a c s, hl]
          rfl
        rw [hsize, byteLen_cons, byteLen_nil, Nat.add_zero, ← Nat.add_assoc, ← utf8Size_toLower c]
        exact hlr

theorem infix_lowercaseFrom (hm : Plain m) (hne : m ≠ []) (a s : List Char) :
    m <:+: casing.lowercaseFrom a s ↔ m <:+: asciiLower s := by
  induction s generalizing a with
  | nil => rfl
  | cons c s ih =>
    obtain ⟨e, m, rfl⟩ := List.exists_cons_of_ne_nil hne
    obtain ⟨d, ds, hl, hds⟩ := lower_eq_cons casing a c s
    have hhead : e ∉ ds := fun he =>
      absurd (hm.ascii e List.mem_cons_self) (not_lt.mpr (hds e he))
    have hstart := prefix_lowercaseFrom casing hm a (c :: s)
    rw [Casing.lowercaseFrom, hl, List.cons_append, asciiLower_cons] at hstart ⊢
    rw [List.infix_cons_iff, List.infix_cons_iff, hstart, infix_append_of_head_not_mem hhead, ih]

end Pairs

end LibreFang.Session
