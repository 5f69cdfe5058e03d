import Mathlib.Data.List.Infix

/-!
# Occurrences and splices

* `StartsIn`: a list starts in a part of another one.
* `occurrences`: where a list occurs in another one, from left to right without overlaps.
* `scan_induction`: the induction of this search; `mem_scan`, **`scan_apart`**.
* `rewrite`: the occurrences replaced as they are found; **`spliceAll_scan`**: the same.
* `split`: what is between the occurrences; **`intercalate_split`**.
-/

namespace Occurrences

section Starts

variable {α : Type*} {needle a b r t : List α}

/-- The list starts in `a`, with `r` behind `a`. -/
def StartsIn (needle a r : List α) : Prop := ∃ x y, a = x ++ y ∧ y ≠ [] ∧ needle <+: y ++ r

theorem not_startsIn_nil : ¬ StartsIn needle [] r := by
  rintro ⟨x, y, h, hne, -⟩
  exact hne (List.nil_eq_append_iff.mp h).2

variable {c : α}

theorem startsIn_cons :
    StartsIn needle (c :: a) r ↔ needle <+: c :: (a ++ r) ∨ StartsIn needle a r := by
  constructor
  · rintro ⟨x, y, h, hne, hbegins⟩
    cases x with
    | nil =>
      rw [List.nil_append] at h
      rw [← h, List.cons_append] at hbegins
      exact .inl hbegins
    | cons d x => exact .inr ⟨x, y, (List.cons.inj h).2, hne, hbegins⟩
  · rintro (hbegins | ⟨x, y, h, hne, hbegins⟩)
    · exact ⟨[], c :: a, rfl, List.cons_ne_nil _ _, hbegins⟩
    · exact ⟨c :: x, y, by rw [h, List.cons_append], hne, hbegins⟩

theorem StartsIn.append_right (h : StartsIn needle a r) (t : List α) :
    StartsIn needle a (r ++ t) := by
  obtain ⟨x, y, ha, hne, hbegins⟩ := h
  refine ⟨x, y, ha, hne, ?_⟩
  rw [← List.append_assoc]
  exact hbegins.trans (List.prefix_append _ _)

theorem StartsIn.of_length_le (h : StartsIn needle a (r ++ t)) (hlen : needle.length ≤ r.length + 1) :
    StartsIn needle a r := by
  obtain ⟨x, y, ha, hne, hbegins⟩ := h
  refine ⟨x, y, ha, hne, ?_⟩
  have hpos := List.length_pos_iff.mpr hne
  rw [← List.append_assoc] at hbegins
  exact List.prefix_of_prefix_length_le hbegins (List.prefix_append _ _)
    (by rw [List.length_append]; omega)

end Starts

section Scan

variable {α : Type*} [DecidableEq α] (needle : List α)

/-- The search, `skip` items behind the last match; `pos` counts the items before. -/
def scan : ℕ → ℕ → List α → List ℕ
  | _, _, [] => []
  | pos, skip + 1, _ :: s => scan (pos + 1) skip s
  | pos, 0, c :: s =>
    if needle.isPrefixOf (c :: s) then pos :: scan (pos + 1) (needle.length - 1) s
    else scan (pos + 1) 0 s

/-- Where a list occurs, from left to right without overlaps. -/
def occurrences (s : List α) : List ℕ := scan needle 0 0 s

variable {needle} {s : List α}

theorem scan_skip (pos : ℕ) {skip : ℕ} (h : skip ≤ s.length) :
    scan needle pos skip s = scan needle (pos + skip) 0 (s.drop skip) := by
  induction skip generalizing pos s with
  | zero => rfl
  | succ skip ih =>
    cases s with
    | nil => exact absurd h (Nat.not_succ_le_zero _)
    | cons c s =>
      rw [scan, List.drop_succ_cons, ih (pos + 1) (Nat.le_of_succ_le_succ h), Nat.add_assoc,
        Nat.add_comm 1]

theorem scan_found (h : needle <+: c :: s) (pos : ℕ) :
    scan needle pos 0 (c :: s) = pos :: scan needle (pos + 1) (needle.length - 1) s := by
  rw [scan, if_pos (List.isPrefixOf_iff_prefix.mpr h)]

theorem scan_append (hne : needle ≠ []) (pos : ℕ) (s : List α) :
    scan needle pos 0 (needle ++ s) = pos :: scan needle (pos + needle.length) 0 s := by
  obtain ⟨c, rest, rfl⟩ := List.exists_cons_of_ne_nil hne
  have hbegins : c :: rest <+: c :: (rest ++ s) := List.prefix_append (c :: rest) s
  rw [List.cons_append, scan_found hbegins, List.length_cons, Nat.add_sub_cancel,
    scan_skip _ (by rw [List.length_append]; omega), List.drop_left, Nat.add_assoc, Nat.add_comm 1]

theorem scan_cons (h : ¬ needle <+: c :: s) (pos : ℕ) :
    scan needle pos 0 (c :: s) = scan needle (pos + 1) 0 s := by
  rw [scan, if_neg (mt List.isPrefixOf_iff_prefix.mp h)]

theorem scan_induction {motive : List α → Prop} (hne : needle ≠ []) (nil : motive [])
    (found : ∀ s, motive s → motive (needle ++ s))
    (next : ∀ c s, ¬ needle <+: c :: s → motive s → motive (c :: s)) (s : List α) : motive s := by
  induction hlen : s.length using Nat.strongRecOn generalizing s with
  | _ n ih =>
    by_cases hbegins : needle <+: s
    · obtain ⟨rest, rfl⟩ := hbegins
      have hpos := List.length_pos_iff.mpr hne
      rw [List.length_append] at hlen
      exact found rest (ih rest.length (by omega) rest rfl)
    · cases s with
      | nil => exact nil
      | cons c s =>
        rw [List.length_cons] at hlen
        exact next c s hbegins (ih s.length (by omega) s rfl)

theorem mem_scan (hne : needle ≠ []) {pos i : ℕ} (h : i ∈ scan needle pos 0 s) :
    pos ≤ i ∧ i + needle.length ≤ pos + s.length := by
  induction s using scan_induction hne generalizing pos with
  | nil => exact absurd h List.not_mem_nil
  | found s ih =>
    rw [scan_append hne, List.mem_cons] at h
    rw [List.length_append]
    rcases h with rfl | h
    · omega
    · have := ih h
      omega
  | next c s hbegins ih =>
    rw [scan_cons hbegins] at h
    rw [List.length_cons]
    have := ih h
    omega

/-- **The places that are found do not overlap.** -/
theorem scan_apart (hne : needle ≠ []) (pos : ℕ) (s : List α) :
    (scan needle pos 0 s).Pairwise fun i j => i + needle.length ≤ j := by
  induction s using scan_induction hne generalizing pos with
  | nil => exact .nil
  | found s ih =>
    rw [scan_append hne]
    exact List.pairwise_cons.mpr ⟨fun j hj => (mem_scan hne hj).1, ih _⟩
  | next c s hbegins ih =>
    rw [scan_cons hbegins]
    exact ih _

theorem scan_ne_nil (hne : needle ≠ []) (pos : ℕ) (h : needle <:+: s) :
    scan needle pos 0 s ≠ [] := by
  induction s using scan_induction hne generalizing pos with
  | nil => exact absurd (List.infix_nil.mp h) hne
  | found s ih =>
    rw [scan_append hne]
    exact List.cons_ne_nil _ _
  | next c s hbegins ih =>
    rw [scan_cons hbegins]
    exact ih _ ((List.infix_cons_iff.mp h).resolve_left hbegins)

end Scan

section Splice

variable {α : Type*} (put : ℕ × ℕ → List α)

/-- One part of a list replaced. -/
def splice (region : ℕ × ℕ) (s : List α) : List α := s.take region.1 ++ put region ++ s.drop region.2

/-- Parts of a list replaced, from the last to the first. -/
def spliceAll (regions : List (ℕ × ℕ)) (s : List α) : List α := regions.foldr (splice put) s

/-- One part of a list replaced, if there is such a part. -/
def trySplice (new : List α) (region : ℕ × ℕ) (s : Option (List α)) : Option (List α) :=
  s.bind fun s =>
    if region.1 ≤ region.2 ∧ region.2 ≤ s.length then some (splice (fun _ => new) region s) else none

/-- Regions in order, none of which overlaps another. -/
def Apart (regions : List (ℕ × ℕ)) : Prop :=
  (∀ region ∈ regions, region.1 ≤ region.2) ∧ regions.Pairwise fun a b => a.2 ≤ b.1

variable {put} {regions : List (ℕ × ℕ)}

theorem Apart.tail {region : ℕ × ℕ} (h : Apart (region :: regions)) : Apart regions :=
  ⟨fun r hr => h.1 r (List.mem_cons_of_mem _ hr), (List.pairwise_cons.mp h.2).2⟩

theorem splice_append {a b c : List α} {region : ℕ × ℕ} (ha : a.length = region.1)
    (hb : (a ++ b).length = region.2) : splice put region (a ++ b ++ c) = a ++ put region ++ c := by
  unfold splice
  rw [← hb, List.drop_left, ← ha, List.append_assoc a, List.take_left]

/-- **What stands before the regions stays.** -/
theorem exists_spliceAll {front s : List α}
    (h : ∀ region ∈ regions, front.length ≤ region.1 ∧ region.1 ≤ region.2) :
    ∃ rest, spliceAll put regions (front ++ s) = front ++ rest := by
  induction regions with
  | nil => exact ⟨s, rfl⟩
  | cons region regions ih =>
    obtain ⟨hregion, hregions⟩ := List.forall_mem_cons.mp h
    obtain ⟨rest, hrest⟩ := ih hregions
    have hsplice : spliceAll put (region :: regions) (front ++ s) =
        splice put region (front ++ rest) := congrArg (splice put region) hrest
    rw [hsplice]
    unfold splice
    rw [List.take_append, List.take_of_length_le hregion.1, List.append_assoc, List.append_assoc]
    exact ⟨_, rfl⟩

theorem foldr_trySplice (new : List α) (h : Apart regions)
    (hinside : ∀ region ∈ regions, region.2 ≤ s.length) :
    regions.foldr (trySplice new) (some s) = some (spliceAll (fun _ => new) regions s) := by
  induction regions with
  | nil => rfl
  | cons region regions ih =>
    obtain ⟨hregion, hregions⟩ := List.forall_mem_cons.mp hinside
    obtain ⟨hle, hles⟩ := List.forall_mem_cons.mp h.1
    have hapart := (List.pairwise_cons.mp h.2).1
    obtain ⟨rest, hrest⟩ := @exists_spliceAll _ (fun _ => new) regions (s.take region.2)
      (s.drop region.2) fun r hr =>
        ⟨(List.length_take_of_le hregion).symm ▸ hapart r hr, hles r hr⟩
    have hlength : region.2 ≤ (spliceAll (fun _ => new) regions s).length := by
      rw [List.take_append_drop] at hrest
      rw [hrest, List.length_append, List.length_take_of_le hregion]
      exact Nat.le_add_right _ _
    rw [List.foldr_cons, ih h.tail hregions]
    exact if_pos ⟨hle, hlength⟩

end Splice

section Rewrite

variable {α β : Type*} [DecidableEq α] (needle : List α) (new : List β)

/-- Where a list occurs in one list, `new` is put into another one; `skip` items behind the last
occurrence. -/
def rewrite : ℕ → List α → List β → List β
  | _, [], t => t
  | skip + 1, _ :: s, t => rewrite skip s t.tail
  | 0, c :: s, t =>
    if needle.isPrefixOf (c :: s) then new ++ rewrite (needle.length - 1) s t.tail
    else t.take 1 ++ rewrite 0 s t.tail

variable {needle new}

theorem rewrite_skip {skip : ℕ} (t : List β) (h : skip ≤ s.length) :
    rewrite needle new skip s t = rewrite needle new 0 (s.drop skip) (t.drop skip) := by
  induction skip generalizing s t with
  | zero => rfl
  | succ skip ih =>
    cases s with
    | nil => exact absurd h (Nat.not_succ_le_zero _)
    | cons c s =>
      rw [rewrite, ih _ (Nat.le_of_succ_le_succ h), List.drop_succ_cons, List.drop_tail]

theorem rewrite_found (h : needle <+: c :: s) (t : List β) :
    rewrite needle new 0 (c :: s) t = new ++ rewrite needle new (needle.length - 1) s t.tail := by
  rw [rewrite, if_pos (List.isPrefixOf_iff_prefix.mpr h)]

theorem rewrite_next (h : ¬ needle <+: c :: s) (d : β) (t : List β) :
    rewrite needle new 0 (c :: s) (d :: t) = d :: rewrite needle new 0 s t := by
  rw [rewrite, if_neg (mt List.isPrefixOf_iff_prefix.mp h)]
  rfl

theorem rewrite_append (hne : needle ≠ []) (s : List α) {x : List β} (t : List β)
    (hx : x.length = needle.length) :
    rewrite needle new 0 (needle ++ s) (x ++ t) = new ++ rewrite needle new 0 s t := by
  have hdrop : (x ++ t).drop needle.length = t := by rw [← hx, List.drop_left]
  obtain ⟨c, rest, rfl⟩ := List.exists_cons_of_ne_nil hne
  have hbegins : c :: rest <+: c :: (rest ++ s) := List.prefix_append (c :: rest) s
  rw [List.cons_append, rewrite_found hbegins, List.length_cons, Nat.add_sub_cancel,
    rewrite_skip _ (by rw [List.length_append]; omega), List.drop_left, List.drop_tail]
  rw [List.length_cons] at hdrop
  rw [hdrop]

/-- **Replaced as they are found, or all at once from the last to the first.** -/
theorem spliceAll_scan (hne : needle ≠ []) {front t : List β} (h : s.length ≤ t.length) :
    spliceAll (fun _ => new) ((scan needle front.length 0 s).map fun i => (i, i + needle.length))
      (front ++ t) = front ++ rewrite needle new 0 s t := by
  induction s using scan_induction hne generalizing front t with
  | nil => rfl
  | found s ih =>
    rw [List.length_append] at h
    obtain ⟨x, y, rfl, hx⟩ : ∃ x y, t = x ++ y ∧ x.length = needle.length :=
      ⟨_, _, (List.take_append_drop needle.length t).symm, List.length_take_of_le (by omega)⟩
    rw [List.length_append] at h
    have hrest := @ih (front ++ x) y (by omega)
    rw [List.length_append, hx, List.append_assoc] at hrest
    rw [scan_append hne, List.map_cons, rewrite_append hne s y hx, ← List.append_assoc front new]
    unfold spliceAll at hrest ⊢
    rw [List.foldr_cons, hrest, splice_append rfl (by rw [List.length_append, hx])]
  | next c s hbegins ih =>
    cases t with
    | nil => exact absurd h (Nat.not_succ_le_zero _)
    | cons d t =>
      have hrest := @ih (front ++ [d]) t (Nat.le_of_succ_le_succ h)
      rw [List.length_append, List.length_singleton, List.append_assoc, List.singleton_append,
        List.append_assoc, List.singleton_append] at hrest
      rw [scan_cons hbegins, hrest, rewrite_next hbegins]

end Rewrite

section Split

variable {α : Type*} [DecidableEq α] (needle : List α)

/-- The parts between the occurrences, `skip` items behind the last one. -/
def splitParts : ℕ → List α → List (List α)
  | _, [] => [[]]
  | skip + 1, _ :: s => splitParts skip s
  | 0, c :: s =>
    if needle.isPrefixOf (c :: s) then [] :: splitParts (needle.length - 1) s
    else (splitParts 0 s).modifyHead (c :: ·)

/-- What is between the occurrences of a list. -/
def split (s : List α) : List (List α) := splitParts needle 0 s

variable {needle}

theorem splitParts_skip {skip : ℕ} (h : skip ≤ s.length) :
    splitParts needle skip s = splitParts needle 0 (s.drop skip) := by
  induction skip generalizing s with
  | zero => rfl
  | succ skip ih =>
    cases s with
    | nil => exact absurd h (Nat.not_succ_le_zero _)
    | cons c s => rw [splitParts, ih (Nat.le_of_succ_le_succ h), List.drop_succ_cons]

theorem split_append (hne : needle ≠ []) (s : List α) :
    split needle (needle ++ s) = [] :: split needle s := by
  obtain ⟨c, rest, rfl⟩ := List.exists_cons_of_ne_nil hne
  have hbegins : c :: rest <+: c :: (rest ++ s) := List.prefix_append (c :: rest) s
  unfold split
  rw [List.cons_append, splitParts, if_pos (List.isPrefixOf_iff_prefix.mpr hbegins),
    List.length_cons, Nat.add_sub_cancel, splitParts_skip (by rw [List.length_append]; omega),
    List.drop_left]

theorem split_cons (h : ¬ needle <+: c :: s) :
    split needle (c :: s) = (split needle s).modifyHead (c :: ·) := by
  unfold split
  rw [splitParts, if_neg (mt List.isPrefixOf_iff_prefix.mp h)]

/-- **The parts with what is between them** are the list. -/
theorem intercalate_split (hne : needle ≠ []) (s : List α) :
    split needle s ≠ [] ∧ needle.intercalate (split needle s) = s := by
  induction s using scan_induction hne with
  | nil => exact ⟨List.cons_ne_nil _ _, rfl⟩
  | found s ih =>
    rw [split_append hne]
    obtain ⟨part, parts, hparts⟩ := List.exists_cons_of_ne_nil ih.1
    rw [hparts] at ih ⊢
    refine ⟨List.cons_ne_nil _ _, ?_⟩
    have hrest := ih.2
    unfold List.intercalate at hrest ⊢
    rw [List.intersperse_cons_cons, List.flatten_cons, List.flatten_cons, hrest, List.nil_append]
  | next c s hbegins ih =>
    rw [split_cons hbegins]
    obtain ⟨part, parts, hparts⟩ := List.exists_cons_of_ne_nil ih.1
    rw [hparts] at ih ⊢
    rw [List.modifyHead_cons]
    refine ⟨List.cons_ne_nil _ _, ?_⟩
    have hrest := ih.2
    unfold List.intercalate at hrest ⊢
    cases parts with
    | nil =>
      rw [List.intersperse_singleton, List.flatten_singleton] at hrest ⊢
      rw [hrest]
    | cons next parts =>
      rw [List.intersperse_cons_cons, List.flatten_cons] at hrest ⊢
      rw [List.cons_append, hrest]

end Split

end Occurrences
