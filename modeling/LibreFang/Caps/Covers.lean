import LibreFang.Caps.Glob

/-!
# A child pattern under a parent pattern

The inheritance check matches the child's pattern as if it were a value. `Covers p c` says when
that is enough.

* `Covers`: no wildcard of the child stands where the parent reads it as plain text.
* **`Covers.sound`**: what a covered child pattern matches, the parent pattern matches.
-/

namespace LibreFang.Caps

open Wildcard

/-! ## Values as rewritings -/

variable {D : Char → Prop} {p c r u v A B : List Char}

theorem expands_filter (s : List Char) : Expands '*' D s (s.filter (· != '*')) := by
  induction s with
  | nil => exact .nil
  | cons a s ih =>
    by_cases ha : a = '*'
    · subst ha
      simpa using Expands.gap ['*'] [] (by simp) (by simp) ih
    · rw [List.filter_cons_of_pos (by simp [ha])]
      exact .lit a ih

theorem SimpleParts.expands (h : SimpleParts p A B) (hv : Between A B v) : Expands '*' D p v := by
  obtain ⟨L, rfl, -, rfl⟩ := h
  obtain ⟨x, rfl⟩ := hv
  have hstar : Expands '*' D ['*'] x := expands_gap x (by simp) (by simp)
  simpa using ((expands_filter L).append hstar).append (Expands.refl B)

theorem expands_of_simple (h : globMatchesSimple p v = true) : Expands '*' D p v := by
  obtain ⟨A, B, hp, hv⟩ := (globMatchesSimple_iff p v).mp h
  exact hp.expands hv

theorem expands_of_segment (h : SegmentFits p v) : Expands '*' D p v := by
  unfold SegmentFits segmentMatches at h
  split_ifs at h with heq hsep
  · rcases heq with rfl | rfl
    · exact expands_gap v (by simp) (by simp)
    · exact .refl p
  · exact expands_of_simple h

theorem doubleStar_stars (p : List Char) (h : DoubleStar p) : '*' ∈ p ∧ ∀ a ∈ p, a = '*' := by
  subst h
  simp

theorem expands_of_dots (h : globMatchesWithSeparator p v '.' = true) :
    Expands '*' (· = '.') p v := by
  have := expands_intercalate (D := (· = '.')) doubleStar_stars rfl
    (fun _ _ => expands_of_segment) ((globMatchSegments_iff _ _).mp h) (List.splitOn_ne_nil _ _)
  rwa [List.intercalate_splitOn, List.intercalate_splitOn] at this

/-- One spelling for both separators. -/
def normSep (s : List Char) : List Char := s.map fun c => if isSep c then '/' else c

theorem normSep_append (s t : List Char) : normSep (s ++ t) = normSep s ++ normSep t :=
  List.map_append

theorem intercalate_splitOnP_isSep (s : List Char) :
    ['/'].intercalate (s.splitOnP isSep) = normSep s :=
  intercalate_splitOnP isSep '/' s

theorem expands_of_path (h : globMatchesPath p v = true) :
    Expands '*' (· = '/') (normSep p) (normSep v) := by
  have := expands_intercalate (D := (· = '/')) doubleStar_stars rfl
    (fun _ _ => expands_of_segment) ((globMatchSegments_iff _ _).mp h) (List.splitOnP_ne_nil _ _)
  rwa [intercalate_splitOnP_isSep, intercalate_splitOnP_isSep] at this

theorem expands_of_noSep (hc : ¬HasSep c) (h : globMatches c r = true) :
    Expands '*' (· = '.') c r := by
  unfold globMatches at h
  split_ifs at h with hstar heq hdot
  · subst hstar
    exact expands_gap r (by simp) (by simp)
  · subst heq
    exact .refl c
  · exact expands_of_dots h
  · exact expands_of_simple h

theorem expands_of_hasSep (hc : HasSep c) (h : globMatches c r = true) :
    Expands '*' (· = '/') (normSep c) (normSep r) := by
  unfold globMatches at h
  split_ifs at h with hstar heq
  · subst hstar
    simp [HasSep] at hc
  · subst heq
    exact .refl _
  · exact expands_of_path h

/-- **A value instantiates its pattern** by a rewriting of the stars and of what stands between
them. -/
theorem globMatches_expands (h : globMatches c r = true) :
    Expands '*' (fun a => a = '/' ∨ a = '.') (normSep c) (normSep r) := by
  by_cases hc : HasSep c
  · exact (expands_of_hasSep hc h).mono fun a ha => Or.inl ha
  · refine (expands_of_noSep hc h).map (by decide) fun a ha => ?_
    subst ha
    decide

/-! ### The normal spelling -/

variable {s : List Char}

theorem normSep_noSep (h : ∀ a ∈ s, isSep a = false) : normSep s = s := by
  refine (List.map_congr_left fun a ha => ?_).trans (List.map_id s)
  rw [h a ha]
  rfl

theorem eq_of_normSep {s t : List Char} (h : normSep s = t) (ht : '/' ∉ t) : s = t := by
  have hs : ∀ a ∈ s, isSep a = false := by
    intro a ha
    by_contra hsep
    refine ht (h ▸ List.mem_map.mpr ⟨a, ha, ?_⟩)
    rw [if_pos (by simpa using hsep)]
  rw [← h, normSep_noSep hs]

theorem mem_normSep {a : Char} (ha : isSep a = false) : a ∈ normSep s ↔ a ∈ s := by
  constructor
  · intro h
    obtain ⟨b, hb, hab⟩ := List.mem_map.mp h
    split_ifs at hab with hsep
    · subst hab
      simp [isSep] at ha
    · exact hab ▸ hb
  · intro h
    refine List.mem_map.mpr ⟨a, h, ?_⟩
    rw [ha]
    rfl

theorem hasSep_iff : HasSep s ↔ ∃ a ∈ s, isSep a = true := by
  constructor
  · rintro (h | h)
    · exact ⟨_, h, rfl⟩
    · exact ⟨_, h, rfl⟩
  · rintro ⟨a, ha, hsep⟩
    rcases (by simpa [isSep] using hsep : a = '/' ∨ a = '\\') with rfl | rfl
    · exact Or.inl ha
    · exact Or.inr ha

theorem isSep_of_not_hasSep (h : ¬HasSep s) : ∀ a ∈ s, isSep a = false := by
  intro a ha
  by_contra hsep
  exact h (hasSep_iff.mpr ⟨a, ha, by simpa using hsep⟩)

/-! ## Covered patterns -/

/-- A segment of a path under a parent segment. -/
abbrev PathUnderPath (q u : List Char) : Prop := SegmentFits q u ∧ ¬DoubleStar u

/-- A name without separators under a segment of a parent path. -/
abbrev NameUnderPath (q u : List Char) : Prop := SegmentFits q u ∧ '*' ∉ u

/-- The text between two dots of a path under the text between two dots of a name. -/
abbrev PathUnderName (q u : List Char) : Prop :=
  SegmentFits q u ∧ '*' ∉ u ∧ ('\\' ∈ u → q = ['*'])

/-- The text between two dots of a name under such a text of a parent name. -/
abbrev NameUnderName (q u : List Char) : Prop :=
  SegmentFits q u ∧ ¬DoubleStar u ∧ (u = ['*'] → q = ['*'])

/-- The child's pattern `c` has its wildcards where the parent's pattern `p` lets them range. -/
def Covers (p c : List Char) : Prop :=
  p = ['*'] ∨ p = c ∨
  if HasSep p then
    if HasSep c then Blocks DoubleStar PathUnderPath (p.splitOnP isSep) (c.splitOnP isSep)
    else Blocks DoubleStar NameUnderPath (p.splitOnP isSep) [c]
  else if '.' ∈ p then
    '.' ∈ c ∧
      if HasSep c then Blocks DoubleStar PathUnderName (p.splitOn '.') (c.splitOn '.')
      else Blocks DoubleStar NameUnderName (p.splitOn '.') (c.splitOn '.')
  else globMatchesSimple p c = true

instance (p c : List Char) : Decidable (Covers p c) := by
  unfold Covers
  infer_instance

theorem globMatches_path (hp : HasSep p) (h : globMatchesPath p v = true) :
    globMatches p v = true := by
  unfold globMatches
  rw [if_pos hp, h]
  simp

theorem globMatches_dots (hp : ¬HasSep p) (hdot : '.' ∈ p ∧ '.' ∈ v)
    (h : globMatchesWithSeparator p v '.' = true) : globMatches p v = true := by
  unfold globMatches
  rw [if_neg hp, if_pos hdot, h]
  simp

theorem globMatches_simple (hp : ¬HasSep p) (hdot : '.' ∉ p)
    (h : globMatchesSimple p v = true) : globMatches p v = true := by
  have hno : ¬('.' ∈ p ∧ '.' ∈ v) := fun hd => hdot hd.1
  unfold globMatches
  rw [if_neg hp, if_neg hno, h]
  simp

/-! ### A parent without separators and dots -/

theorem between_normSep (hAB : ∀ a ∈ A ++ B, a ≠ '*' ∧ a ≠ '.' ∧ isSep a = false)
    (hc : Between A B c)
    (h : Expands '*' (fun a => a = '/' ∨ a = '.') (normSep c) (normSep r)) : Between A B r := by
  have hstay : ∀ a ∈ A ++ B, a ≠ '*' ∧ ¬(a = '/' ∨ a = '.') := by
    intro a ha
    obtain ⟨hs, hd, hsep⟩ := hAB a ha
    refine ⟨hs, ?_⟩
    rintro (rfl | rfl)
    · simp [isSep] at hsep
    · exact hd rfl
  have hnorm : ∀ s : List Char, (∀ a ∈ s, a ∈ A ++ B) → normSep s = s := fun s hs =>
    normSep_noSep fun a ha => (hAB a (hs a ha)).2.2
  have hslash : ∀ s : List Char, (∀ a ∈ s, a ∈ A ++ B) → '/' ∉ s := fun s hs hm =>
    (hstay '/' (hs _ hm)).2 (Or.inl rfl)
  have hA : ∀ a ∈ A, a ∈ A ++ B := fun a => List.mem_append_left B
  have hB : ∀ a ∈ B, a ∈ A ++ B := fun a => List.mem_append_right A
  obtain ⟨x, rfl⟩ := hc
  rw [normSep_append, normSep_append, hnorm A hA, hnorm B hB] at h
  obtain ⟨y, hy⟩ := h.ends (fun a ha => hstay a (hA a ha)) fun b hb => hstay b (hB b hb)
  obtain ⟨r', r₃, rfl, hr', h₃⟩ := List.map_eq_append_iff.mp hy
  obtain ⟨r₁, r₂, rfl, h₁, -⟩ := List.map_eq_append_iff.mp hr'
  rw [eq_of_normSep h₁ (hslash A hA), eq_of_normSep h₃ (hslash B hB)]
  exact ⟨r₂, rfl⟩

theorem covers_simple (hp : ¬HasSep p) (hdot : '.' ∉ p) (h : globMatchesSimple p c = true)
    (hr : globMatches c r = true) : globMatches p r = true := by
  obtain ⟨A, B, hAB, hc⟩ := (globMatchesSimple_iff p c).mp h
  refine globMatches_simple hp hdot ((globMatchesSimple_iff p r).mpr ⟨A, B, hAB, ?_⟩)
  refine between_normSep ?_ hc (globMatches_expands hr)
  obtain ⟨L, rfl, hB, rfl⟩ := hAB
  intro a ha
  have hmem : a ∈ L ++ '*' :: B ∧ a ≠ '*' := by
    rcases List.mem_append.mp ha with ha | ha
    · obtain ⟨ha, hne⟩ := List.mem_filter.mp ha
      exact ⟨List.mem_append_left _ ha, by simpa using hne⟩
    · exact ⟨by simp [ha], fun he => hB (he ▸ ha)⟩
  refine ⟨hmem.2, ?_, isSep_of_not_hasSep hp a hmem.1⟩
  rintro rfl
  exact hdot hmem.1

/-! ### A parent path -/

theorem segmentMatches_trans (hpu : SegmentFits p u) (huv : SegmentFits u v)
    (hstar : u = ['*'] → p = ['*'] ∨ '/' ∉ v) : SegmentFits p v := by
  unfold SegmentFits segmentMatches at hpu ⊢
  split_ifs at hpu with heq hsep
  · rcases heq with rfl | rfl
    · rw [if_pos (Or.inl rfl)]
    · exact huv
  · have hp : p ≠ ['*'] := fun he => heq (Or.inl he)
    -- the parent segment is matched by its literal ends, which stay in `u` and in `v`
    have hv : '/' ∉ v := by
      unfold SegmentFits segmentMatches at huv
      split_ifs at huv with heq' hsep'
      · rcases heq' with he | rfl
        · exact (hstar he).resolve_left hp
        · exact hsep
      · exact hsep'
    have hmatch : globMatchesSimple p v = true := by
      obtain ⟨A, B, hAB, x, rfl⟩ := (globMatchesSimple_iff p u).mp hpu
      have hexp : Expands '*' (fun _ => False) (A ++ x ++ B) v := expands_of_segment huv
      have hends : ∀ a ∈ A ++ B, a ≠ '*' := by
        obtain ⟨L, rfl, hB, rfl⟩ := hAB
        intro a ha
        rcases List.mem_append.mp ha with ha | ha
        · simpa using (List.mem_filter.mp ha).2
        · exact fun he => hB (he ▸ ha)
      obtain ⟨y, rfl⟩ := hexp.ends
        (fun a ha => ⟨hends a (List.mem_append_left B ha), not_false⟩)
        fun b hb => ⟨hends b (List.mem_append_right A hb), not_false⟩
      exact (globMatchesSimple_iff p _).mpr ⟨A, B, hAB, y, rfl⟩
    split_ifs
    · rfl
    · exact hmatch

theorem covers_path (hp : HasSep p) (hc : HasSep c)
    (h : Blocks DoubleStar PathUnderPath (p.splitOnP isSep) (c.splitOnP isSep))
    (hr : globMatches c r = true) : globMatches p r = true := by
  refine globMatches_path hp ((globMatchSegments_iff _ _).mpr ?_)
  unfold globMatches at hr
  split_ifs at hr with hstar heq
  · subst hstar
    simp [HasSep] at hc
  · subst heq
    exact h.imp fun _ _ _ _ hqu => hqu.1
  · have hcut := (globMatchSegments_iff _ _).mp hr
    -- no segment of the value holds a separator
    have hno : ∀ v ∈ r.splitOnP isSep, '/' ∉ v := fun v => not_mem_of_mem_splitOnP rfl
    have hcut' : Blocks DoubleStar (fun u v => SegmentFits u v ∧ '/' ∉ v) _ _ :=
      hcut.imp fun u _ v hv huv => ⟨huv, hno v hv⟩
    refine Blocks.trans (fun q u hqu => ?_) h hcut'
    exact ⟨hqu.2, fun v huv => segmentMatches_trans hqu.1 huv.1 fun _ => Or.inr huv.2⟩

theorem covers_path_name (hp : HasSep p) (hc : ¬HasSep c)
    (h : Blocks DoubleStar NameUnderPath (p.splitOnP isSep) [c])
    (hr : globMatches c r = true) : globMatches p r = true := by
  refine globMatches_path hp ((globMatchSegments_iff _ _).mpr ?_)
  by_cases hstar : '*' ∈ c
  · -- the child stands under a double star, so the parent has nothing but double stars
    have hwide := forall_wide_of_blocks_singleton h fun q hqu => hqu.2 hstar
    exact blocks_of_forall_wide (List.splitOnP_ne_nil _ _) hwide _
  · obtain rfl := (expands_of_noSep hc hr).literal hstar
    rw [List.splitOnP_eq_singleton (isSep_of_not_hasSep hc)]
    exact h.imp fun _ _ _ _ hqu => hqu.1

/-! ### A parent name with dots -/

theorem mem_dot_of_expands (hD : ¬D '.') (hc : '.' ∈ c) (h : Expands '*' D c r) : '.' ∈ r := by
  obtain ⟨x, y, rfl⟩ := List.append_of_mem hc
  obtain ⟨r₁, r₂, rfl, -, -⟩ := h.split (by decide) hD
  simp

theorem covers_name (hp : ¬HasSep p) (hdot : '.' ∈ p) (hc : ¬HasSep c) (hcdot : '.' ∈ c)
    (h : Blocks DoubleStar NameUnderName (p.splitOn '.') (c.splitOn '.'))
    (hr : globMatches c r = true) : globMatches p r = true := by
  have hself : globMatches p c = true := globMatches_dots hp ⟨hdot, hcdot⟩
    ((globMatchSegments_iff _ _).mpr (h.imp fun _ _ _ _ hqu => hqu.1))
  unfold globMatches at hr
  split_ifs at hr with hstar heq hboth
  · subst hstar
    simp at hcdot
  · exact heq ▸ hself
  · refine globMatches_dots hp ⟨hdot, hboth.2⟩ ((globMatchSegments_iff _ _).mpr ?_)
    refine Blocks.trans (fun q u hqu => ?_) h ((globMatchSegments_iff _ _).mp hr)
    exact ⟨hqu.2.1, fun v huv => segmentMatches_trans hqu.1 huv fun hu => Or.inl (hqu.2.2 hu)⟩
  · have hexp : Expands '*' (fun _ => False) c r := expands_of_simple hr
    exact absurd ⟨hcdot, mem_dot_of_expands not_false hcdot hexp⟩ hboth

theorem segmentMatches_normSep (hp : ¬HasSep p) (hpu : SegmentFits p u)
    (hback : '\\' ∈ u → p = ['*']) (h : normSep v = normSep u) : SegmentFits p v := by
  by_cases hstar : p = ['*']
  · unfold SegmentFits segmentMatches
    rw [if_pos (Or.inl hstar)]
  · have hu : ¬HasSep u := by
      rintro (hs | hs)
      · unfold SegmentFits segmentMatches at hpu
        split_ifs at hpu with heq
        rcases heq with he | rfl
        · exact hstar he
        · exact hp (Or.inl hs)
      · exact hstar (hback hs)
    rw [normSep_noSep (isSep_of_not_hasSep hu)] at h
    rwa [eq_of_normSep h fun hs => hu (Or.inl hs)]

theorem splitOn_normSep (s : List Char) :
    (normSep s).splitOn '.' = (s.splitOn '.').map normSep := by
  have hdot : (· == '.') ∘ (fun c => if isSep c then '/' else c) = (· == '.') := by
    funext c
    by_cases hc : isSep c = true
    · have hne : c ≠ '.' := by
        rintro rfl
        simp [isSep] at hc
      simp [hc, hne]
    · simp [hc]
  rw [List.splitOn_eq_splitOnP, normSep, splitOnP_map, hdot]
  rfl

theorem covers_name_path (hp : ¬HasSep p) (hdot : '.' ∈ p) (hc : HasSep c) (hcdot : '.' ∈ c)
    (h : Blocks DoubleStar PathUnderName (p.splitOn '.') (c.splitOn '.'))
    (hr : globMatches c r = true) : globMatches p r = true := by
  have hexp := expands_of_hasSep hc hr
  have hrdot : '.' ∈ r := (mem_normSep rfl).mp
    (mem_dot_of_expands (by decide) ((mem_normSep rfl).mpr hcdot) hexp)
  refine globMatches_dots hp ⟨hdot, hrdot⟩ ((globMatchSegments_iff _ _).mpr ?_)
  have hpsegs : ∀ q ∈ p.splitOn '.', ¬HasSep q := fun q hq hs =>
    hp (hs.imp (mem_of_mem_splitOnP hq) (mem_of_mem_splitOnP hq))
  -- the child's texts between the dots, in the normal spelling
  let fits := fun q v => ∃ u, normSep u = v ∧ PathUnderName q u
  have hcut : Blocks DoubleStar fits (p.splitOn '.') ((normSep c).splitOn '.') := by
    rw [splitOn_normSep, blocks_map]
    exact h.imp fun q _ u _ hqu => ⟨u, rfl, hqu⟩
  have hrcut : Blocks DoubleStar fits (p.splitOn '.') ((normSep r).splitOn '.') := by
    have hjoin : ['.'].intercalate ((normSep c).splitOn '.') = normSep c :=
      List.intercalate_splitOn '.'
    rw [← hjoin] at hexp
    refine expands_cut (by decide) (by decide) ?_ ?_ hcut (List.splitOn_ne_nil _ _) hexp
    · rintro q v ⟨u, rfl, -, hno, -⟩
      exact fun hm => hno ((mem_normSep rfl).mp hm)
    · exact fun v hv => not_mem_of_mem_splitOnP (by simp) hv
  rw [splitOn_normSep, blocks_map] at hrcut
  refine hrcut.imp fun q hq v _ => ?_
  rintro ⟨u, huv, hqu, -, hback⟩
  exact segmentMatches_normSep (hpsegs q hq) hqu hback huv.symm

/-! ### All parents -/

/-- **What a covered child pattern matches, the parent pattern matches.** -/
theorem Covers.sound (h : Covers p c) (hr : globMatches c r = true) : globMatches p r = true := by
  rcases h with rfl | rfl | h
  · rfl
  · exact hr
  split_ifs at h with hp hc hdot hc
  · exact covers_path hp hc h hr
  · exact covers_path_name hp hc h hr
  · exact covers_name_path hp hdot hc h.1 h.2 hr
  · exact covers_name hp hdot hc h.1 h.2 hr
  · exact covers_simple hp hdot h hr

end LibreFang.Caps
