import Mathlib.Data.List.Basic
import LibreFang.Lib.Occurrences

/-!
# Wildcards

Three ways in which a value instantiates a pattern.

* `Blocks wide fits`: a list of values is cut into consecutive blocks, one for each pattern; a
  wide pattern takes any block, any other pattern one value that it fits. **`Blocks.trans`**
  composes two such cuts, `blocks_split` cuts along a concatenation; **`blocks_iff_forall₂`** lists
  the blocks.
* `Fills star`: every star of a list is replaced by some list; `FillsBy star good`: by a list that
  is `good`. **`fills_star_leftmost`**: a literal part after a star may be put where it occurs first.
* `Expands star D`: a list is kept but for pieces made of `star` and of elements of `D`, which
  may become anything. `Expands.prefix`, `Expands.suffix`, `Expands.split`, `Expands.literal`: what
  such a rewriting leaves in place.
* **`expands_intercalate`**: joining the blocks of a cut gives a rewriting; **`expands_cut`**: a
  rewriting that keeps the separator is cut in the same way.
-/

namespace Wildcard

/-! ## Blocks -/

section Blocks

variable {σ τ ρ : Type*}

/-- A cut of the values into one block for each pattern. -/
inductive Blocks (wide : σ → Prop) (fits : σ → τ → Prop) : List σ → List τ → Prop
  | nil : Blocks wide fits [] []
  | wide {p : σ} {ps : List σ} (us : List τ) {vs : List τ} (hp : wide p)
      (h : Blocks wide fits ps vs) : Blocks wide fits (p :: ps) (us ++ vs)
  | one {p : σ} {ps : List σ} {v : τ} {vs : List τ} (hp : ¬wide p) (hv : fits p v)
      (h : Blocks wide fits ps vs) : Blocks wide fits (p :: ps) (v :: vs)

variable {wide : σ → Prop} {fits : σ → τ → Prop} {vs : List τ}

theorem blocks_nil_iff : Blocks wide fits [] vs ↔ vs = [] := by
  constructor
  · intro h
    cases h
    rfl
  · rintro rfl
    exact .nil

variable {ps : List σ}

theorem blocks_cons_wide {p : σ} (hp : wide p) :
    Blocks wide fits (p :: ps) vs ↔ ∃ us ws, vs = us ++ ws ∧ Blocks wide fits ps ws := by
  constructor
  · intro h
    cases h with
    | wide us _ h => exact ⟨us, _, rfl, h⟩
    | one hn _ _ => exact absurd hp hn
  · rintro ⟨us, ws, rfl, h⟩
    exact .wide us hp h

theorem blocks_cons_one {p : σ} (hp : ¬wide p) :
    Blocks wide fits (p :: ps) vs ↔
      ∃ v ws, vs = v :: ws ∧ fits p v ∧ Blocks wide fits ps ws := by
  constructor
  · intro h
    cases h with
    | wide us hw _ => exact absurd hw hp
    | one _ hv h => exact ⟨_, _, rfl, hv, h⟩
  · rintro ⟨v, ws, rfl, hv, h⟩
    exact .one hp hv h

theorem forall_wide_of_blocks_nil (h : Blocks wide fits ps ([] : List τ)) : ∀ p ∈ ps, wide p := by
  induction ps with
  | nil => simp
  | cons p ps ih =>
    by_cases hp : wide p
    · obtain ⟨us, ws, he, h⟩ := (blocks_cons_wide hp).mp h
      obtain ⟨-, rfl⟩ := List.nil_eq_append_iff.mp he
      exact List.forall_mem_cons.mpr ⟨hp, ih h⟩
    · obtain ⟨v, ws, he, -⟩ := (blocks_cons_one hp).mp h
      cases he

theorem forall_wide_of_blocks_singleton {v : τ} (h : Blocks wide fits ps [v])
    (hv : ∀ p, ¬fits p v) : ∀ p ∈ ps, wide p := by
  induction ps with
  | nil => simp
  | cons p ps ih =>
    by_cases hp : wide p
    · refine List.forall_mem_cons.mpr ⟨hp, ?_⟩
      obtain ⟨us, ws, he, h⟩ := (blocks_cons_wide hp).mp h
      rcases List.append_eq_singleton_iff.mp he.symm with ⟨-, rfl⟩ | ⟨-, rfl⟩
      · exact ih h
      · exact forall_wide_of_blocks_nil h
    · obtain ⟨_, _, he, hf, -⟩ := (blocks_cons_one hp).mp h
      cases he
      exact absurd hf (hv p)

/-- **A cut along a concatenation** of patterns. -/
theorem blocks_split {ps qs : List σ} (h : Blocks wide fits (ps ++ qs) vs) :
    ∃ us ws, vs = us ++ ws ∧ Blocks wide fits ps us ∧ Blocks wide fits qs ws := by
  induction ps generalizing vs with
  | nil => exact ⟨[], vs, rfl, .nil, h⟩
  | cons p ps ih =>
    by_cases hp : wide p
    · obtain ⟨us, ws, rfl, hws⟩ := (blocks_cons_wide hp).mp h
      obtain ⟨us', ws', rfl, h₁, h₂⟩ := ih hws
      exact ⟨us ++ us', ws', (List.append_assoc _ _ _).symm, .wide us hp h₁, h₂⟩
    · obtain ⟨v, ws, rfl, hv, hws⟩ := (blocks_cons_one hp).mp h
      obtain ⟨us', ws', rfl, h₁, h₂⟩ := ih hws
      exact ⟨v :: us', ws', rfl, .one hp hv h₁, h₂⟩

/-- **Two cuts compose** when every middle element that is not under a wide pattern is itself not
wide, and hands its fitting on. -/
theorem Blocks.trans {wide' : τ → Prop} {fits' : τ → ρ → Prop} {fits'' : σ → ρ → Prop}
    (hfit : ∀ p c, fits p c → ¬wide' c ∧ ∀ r, fits' c r → fits'' p r)
    {cs : List τ} {rs : List ρ} (h₁ : Blocks wide fits ps cs) (h₂ : Blocks wide' fits' cs rs) :
    Blocks wide fits'' ps rs := by
  induction h₁ generalizing rs with
  | nil =>
    rw [blocks_nil_iff.mp h₂]
    exact .nil
  | wide us hp _ ih =>
    obtain ⟨us', ws', rfl, -, h₂⟩ := blocks_split h₂
    exact .wide us' hp (ih h₂)
  | one hp hc _ ih =>
    obtain ⟨hn, hr⟩ := hfit _ _ hc
    obtain ⟨r, ws, rfl, hf, h₂⟩ := (blocks_cons_one hn).mp h₂
    exact .one hp (hr r hf) (ih h₂)

theorem Blocks.imp {fits' : σ → τ → Prop}
    (hfit : ∀ p ∈ ps, ∀ v ∈ vs, fits p v → fits' p v) (h : Blocks wide fits ps vs) :
    Blocks wide fits' ps vs := by
  induction h with
  | nil => exact .nil
  | wide us hp _ ih =>
    exact .wide us hp (ih fun p hp v hv =>
      hfit p (List.mem_cons_of_mem _ hp) v (List.mem_append_right _ hv))
  | one hp hv _ ih =>
    refine .one hp (hfit _ List.mem_cons_self _ List.mem_cons_self hv) (ih fun p hp v hv => ?_)
    exact hfit p (List.mem_cons_of_mem _ hp) v (List.mem_cons_of_mem _ hv)

theorem blocks_map {f : τ → ρ} {fits' : σ → ρ → Prop} :
    Blocks wide fits' ps (vs.map f) ↔ Blocks wide (fun p v => fits' p (f v)) ps vs := by
  induction ps generalizing vs with
  | nil => rw [blocks_nil_iff, blocks_nil_iff, List.map_eq_nil_iff]
  | cons p ps ih =>
    by_cases hp : wide p
    · rw [blocks_cons_wide hp, blocks_cons_wide hp]
      constructor
      · rintro ⟨us, ws, he, h⟩
        obtain ⟨us', ws', rfl, -, rfl⟩ := List.map_eq_append_iff.mp he
        exact ⟨us', ws', rfl, ih.mp h⟩
      · rintro ⟨us, ws, rfl, h⟩
        exact ⟨us.map f, ws.map f, List.map_append, ih.mpr h⟩
    · rw [blocks_cons_one hp, blocks_cons_one hp]
      constructor
      · rintro ⟨v, ws, he, hv, h⟩
        obtain ⟨v', ws', rfl, rfl, rfl⟩ := List.map_eq_cons_iff.mp he
        exact ⟨v', ws', rfl, hv, ih.mp h⟩
      · rintro ⟨v, ws, rfl, hv, h⟩
        exact ⟨f v, ws.map f, rfl, hv, ih.mpr h⟩

theorem blocks_cons_wide_drop {p : σ} (hp : wide p) :
    Blocks wide fits (p :: ps) vs ↔
      ∃ i ∈ List.range (vs.length + 1), Blocks wide fits ps (vs.drop i) := by
  rw [blocks_cons_wide hp]
  constructor
  · rintro ⟨us, ws, rfl, h⟩
    refine ⟨us.length, List.mem_range.mpr ?_, ?_⟩
    · rw [List.length_append]
      omega
    · rwa [List.drop_left]
  · rintro ⟨i, -, h⟩
    exact ⟨vs.take i, vs.drop i, (List.take_append_drop i vs).symm, h⟩

theorem blocks_of_forall_wide (hne : ps ≠ []) (h : ∀ p ∈ ps, wide p) (vs : List τ) :
    Blocks wide fits ps vs := by
  have hnil : ∀ qs : List σ, (∀ p ∈ qs, wide p) → Blocks wide fits qs ([] : List τ) := by
    intro qs hqs
    induction qs with
    | nil => exact .nil
    | cons q qs ih =>
      exact .wide [] (hqs q List.mem_cons_self) (ih fun p hp => hqs p (List.mem_cons_of_mem _ hp))
  cases ps with
  | nil => exact absurd rfl hne
  | cons p ps =>
    rw [← List.append_nil vs]
    exact .wide vs (h p List.mem_cons_self) (hnil ps fun q hq => h q (List.mem_cons_of_mem _ hq))

/-! ### The blocks of a cut -/

/-- The block of a pattern: any block for a wide one, else one value that it fits. -/
def Takes (wide : σ → Prop) (fits : σ → τ → Prop) (p : σ) (block : List τ) : Prop :=
  wide p ∨ ¬wide p ∧ ∃ v, block = [v] ∧ fits p v

/-- **A cut is a list of blocks**, one for each pattern. -/
theorem blocks_iff_forall₂ :
    Blocks wide fits ps vs ↔
      ∃ blocks : List (List τ), vs = blocks.flatten ∧ List.Forall₂ (Takes wide fits) ps blocks := by
  constructor
  · intro h
    induction h with
    | nil => exact ⟨[], rfl, .nil⟩
    | wide us hp _ ih =>
      obtain ⟨blocks, rfl, hall⟩ := ih
      exact ⟨us :: blocks, rfl, .cons (.inl hp) hall⟩
    | @one p ps v vs hp hv _ ih =>
      obtain ⟨blocks, rfl, hall⟩ := ih
      exact ⟨[v] :: blocks, rfl, .cons (.inr ⟨hp, v, rfl, hv⟩) hall⟩
  · rintro ⟨blocks, rfl, hall⟩
    induction hall with
    | nil => exact .nil
    | cons htakes _ ih =>
      rw [List.flatten_cons]
      rcases htakes with hp | ⟨hp, v, rfl, hv⟩
      · exact .wide _ hp ih
      · exact .one hp hv ih

theorem Blocks.length_eq (h : Blocks wide fits ps vs)
    (hps : ∀ p ∈ ps, ¬wide p) : vs.length = ps.length := by
  induction h with
  | nil => rfl
  | wide us hp _ _ => exact absurd hp (hps _ List.mem_cons_self)
  | one hp hv _ ih =>
    rw [List.length_cons, List.length_cons, ih fun p hp => hps p (List.mem_cons_of_mem _ hp)]

/-! ### Deciding -/

theorem blocks_cons_one_cons {p : σ} {v : τ} (hp : ¬wide p) :
    Blocks wide fits (p :: ps) (v :: vs) ↔ fits p v ∧ Blocks wide fits ps vs := by
  rw [blocks_cons_one hp]
  constructor
  · rintro ⟨_, _, he, hv, h⟩
    cases he
    exact ⟨hv, h⟩
  · exact fun ⟨hv, h⟩ => ⟨v, vs, rfl, hv, h⟩

/-- The search for a cut. -/
def decideBlocks [DecidablePred wide] [∀ p v, Decidable (fits p v)] :
    (ps : List σ) → (vs : List τ) → Decidable (Blocks wide fits ps vs)
  | [], [] => .isTrue .nil
  | [], _ :: _ => .isFalse fun h => List.cons_ne_nil _ _ (blocks_nil_iff.mp h)
  | p :: ps, vs =>
    if hp : wide p then
      have := fun i => decideBlocks ps (vs.drop i)
      decidable_of_iff _ (blocks_cons_wide_drop hp).symm
    else
      match vs with
      | [] => .isFalse fun h => hp (forall_wide_of_blocks_nil h p List.mem_cons_self)
      | _ :: vs =>
        have := decideBlocks ps vs
        decidable_of_iff _ (blocks_cons_one_cons hp).symm

instance [DecidablePred wide] [∀ p v, Decidable (fits p v)] (ps : List σ) (vs : List τ) :
    Decidable (Blocks wide fits ps vs) :=
  decideBlocks ps vs

end Blocks

/-! ## Filling in -/

section Fills

variable {α : Type*}

/-- The value comes from the pattern when each star of it is replaced by some list. -/
inductive Fills (star : α) : List α → List α → Prop
  | nil : Fills star [] []
  | lit {a : α} {p v : List α} (ha : a ≠ star) (h : Fills star p v) : Fills star (a :: p) (a :: v)
  | star (x : List α) {p v : List α} (h : Fills star p v) : Fills star (star :: p) (x ++ v)

variable {star : α} {p q u v w : List α}

theorem fills_append :
    Fills star (p ++ q) w ↔ ∃ u v, w = u ++ v ∧ Fills star p u ∧ Fills star q v := by
  constructor
  · intro h
    induction p generalizing w with
    | nil => exact ⟨[], w, rfl, .nil, h⟩
    | cons a p ih =>
      cases h with
      | lit ha h =>
        obtain ⟨u, v, rfl, hu, hv⟩ := ih h
        exact ⟨a :: u, v, rfl, .lit ha hu, hv⟩
      | star x h =>
        obtain ⟨u, v, rfl, hu, hv⟩ := ih h
        exact ⟨x ++ u, v, (List.append_assoc x u v).symm, .star x hu, hv⟩
  · rintro ⟨u, v, rfl, hu, hv⟩
    induction hu with
    | nil => exact hv
    | lit ha _ ih => exact .lit ha ih
    | star x _ ih =>
      rw [List.append_assoc]
      exact .star x ih

theorem fills_literal (hp : star ∉ p) : Fills star p v ↔ v = p := by
  constructor
  · intro h
    induction h with
    | nil => rfl
    | lit _ _ ih => rw [ih fun hmem => hp (List.mem_cons_of_mem _ hmem)]
    | star _ _ _ => exact absurd List.mem_cons_self hp
  · rintro rfl
    induction v with
    | nil => exact .nil
    | cons a v ih =>
      rw [List.mem_cons, not_or] at hp
      exact .lit (Ne.symm hp.1) (ih hp.2)

theorem fills_replicate (k : ℕ) (v : List α) : Fills star (List.replicate (k + 1) star) v := by
  induction k generalizing v with
  | zero =>
    rw [← List.append_nil v]
    exact .star v .nil
  | succ k ih => exact .star [] (ih v)

theorem fills_filter [DecidableEq α] (p : List α) : Fills star p (p.filter (· != star)) := by
  induction p with
  | nil => exact .nil
  | cons a p ih =>
    by_cases ha : a = star
    · subst ha
      rw [List.filter_cons_of_neg (by simp)]
      exact .star [] ih
    · rw [List.filter_cons_of_pos (by simpa using ha)]
      exact .lit ha ih

theorem fills_self [DecidableEq α] (p : List α) : Fills star p p := by
  induction p with
  | nil => exact .nil
  | cons a p ih =>
    by_cases ha : a = star
    · rw [ha]
      exact .star [star] ih
    · exact .lit ha ih

theorem fills_literal_append (hp : star ∉ p) :
    Fills star (p ++ q) w ↔ ∃ v, w = p ++ v ∧ Fills star q v := by
  rw [fills_append]
  constructor
  · rintro ⟨u, v, rfl, hu, hv⟩
    exact ⟨v, by rw [(fills_literal hp).mp hu], hv⟩
  · rintro ⟨v, rfl, hv⟩
    exact ⟨p, v, rfl, (fills_literal hp).mpr rfl, hv⟩

theorem fills_star_cons : Fills star (star :: p) w ↔ ∃ x v, w = x ++ v ∧ Fills star p v := by
  constructor
  · intro h
    cases h with
    | lit ha _ => exact absurd rfl ha
    | star x h => exact ⟨x, _, rfl, h⟩
  · rintro ⟨x, v, rfl, h⟩
    exact .star x h

theorem Fills.append_left (h : Fills star (star :: p) w) (x : List α) :
    Fills star (star :: p) (x ++ w) := by
  obtain ⟨y, v, rfl, hv⟩ := fills_star_cons.mp h
  rw [← List.append_assoc]
  exact .star (x ++ y) hv

theorem fills_star_star : Fills star (star :: star :: p) w ↔ Fills star (star :: p) w := by
  constructor
  · intro h
    obtain ⟨x, v, rfl, hv⟩ := fills_star_cons.mp h
    exact hv.append_left x
  · exact fun h => .star [] h

theorem fills_star_literal (hp : star ∉ p) : Fills star (star :: p) w ↔ p <:+ w := by
  rw [fills_star_cons]
  constructor
  · rintro ⟨x, v, rfl, hv⟩
    rw [(fills_literal hp).mp hv]
    exact List.suffix_append x p
  · rintro ⟨x, rfl⟩
    exact ⟨x, p, rfl, (fills_literal hp).mpr rfl⟩

/-- **A literal part between two stars** may be put where it occurs first: what the stars behind
it take, they can still take from there. -/
theorem fills_star_leftmost (hp : star ∉ p) (hfirst : ¬Occurrences.StartsIn p u (p ++ v)) :
    Fills star (star :: (p ++ star :: q)) (u ++ (p ++ v)) ↔ Fills star (star :: q) v := by
  rw [fills_star_cons]
  constructor
  · rintro ⟨x, y, hsplit, hy⟩
    obtain ⟨w, rfl, hw⟩ := (fills_literal_append hp).mp hy
    rcases List.append_eq_append_iff.mp hsplit with ⟨z, rfl, hz⟩ | ⟨z, rfl, hz⟩
    · -- the part stands at or behind the first place
      have hlen := congrArg List.length hz
      rw [List.length_append, List.length_append, List.length_append] at hlen
      have hsuffix : w <:+ v := by
        refine List.suffix_of_suffix_length_le (List.suffix_append (z ++ p) w) ?_ (by omega)
        rw [List.append_assoc, ← hz]
        exact List.suffix_append p v
      obtain ⟨t, rfl⟩ := hsuffix
      exact hw.append_left t
    · by_cases hnil : z = []
      · subst hnil
        rw [List.nil_append] at hz
        rwa [← List.append_cancel_left hz]
      · exact absurd ⟨x, z, rfl, hnil, w, hz⟩ hfirst
  · intro h
    exact ⟨u, p ++ v, rfl, (fills_literal_append hp).mpr ⟨v, rfl, h⟩⟩

theorem not_fills_star (hp : star ∉ p) (hne : p ≠ []) (h : ¬Occurrences.StartsIn p w []) :
    ¬Fills star (star :: (p ++ q)) w := by
  rw [fills_star_cons]
  rintro ⟨x, y, rfl, hy⟩
  obtain ⟨v, rfl, -⟩ := (fills_literal_append hp).mp hy
  refine h ⟨x, p ++ v, rfl, fun hnil => hne (List.append_eq_nil_iff.mp hnil).1, ?_⟩
  rw [List.append_nil]
  exact List.prefix_append p v

/-- The value comes from the pattern when each star of it is replaced by some list that is `good`. -/
inductive FillsBy (star : α) (good : List α → Prop) : List α → List α → Prop
  | nil : FillsBy star good [] []
  | lit {a : α} {p v : List α} (ha : a ≠ star) (h : FillsBy star good p v) :
      FillsBy star good (a :: p) (a :: v)
  | star (x : List α) {p v : List α} (hx : good x) (h : FillsBy star good p v) :
      FillsBy star good (star :: p) (x ++ v)

variable {good : List α → Prop}

theorem FillsBy.append (hp : FillsBy star good p u) (hq : FillsBy star good q v) :
    FillsBy star good (p ++ q) (u ++ v) := by
  induction hp with
  | nil => exact hq
  | lit ha _ ih => exact .lit ha ih
  | star x hx _ ih =>
    rw [List.append_assoc]
    exact .star x hx ih

theorem fillsBy_self [DecidableEq α] (hstar : good [star]) (p : List α) : FillsBy star good p p := by
  induction p with
  | nil => exact .nil
  | cons a p ih =>
    by_cases ha : a = star
    · rw [ha]
      exact .star [star] hstar ih
    · exact .lit ha ih

theorem eq_of_fillsBy (hp : star ∉ p) (h : FillsBy star good p v) : v = p := by
  induction h with
  | nil => rfl
  | lit _ _ ih => rw [ih fun hmem => hp (List.mem_cons_of_mem _ hmem)]
  | star _ _ _ _ => exact absurd List.mem_cons_self hp

theorem exists_of_fillsBy_star (hp : star ∉ p) (hq : star ∉ q)
    (h : FillsBy star good (p ++ star :: q) v) : ∃ x, good x ∧ v = p ++ x ++ q := by
  induction p generalizing v with
  | nil =>
    cases h with
    | lit ha _ => exact absurd rfl ha
    | star x hx h => exact ⟨x, hx, by rw [eq_of_fillsBy hq h, List.nil_append]⟩
  | cons a p ih =>
    rw [List.mem_cons, not_or] at hp
    cases h with
    | lit ha h =>
      obtain ⟨x, hx, rfl⟩ := ih hp.2 h
      exact ⟨x, hx, rfl⟩
    | star _ _ _ => exact absurd rfl hp.1

theorem fillsBy_filter [DecidableEq α] (hgood : good []) (p : List α) :
    FillsBy star good p (p.filter (· != star)) := by
  induction p with
  | nil => exact .nil
  | cons a p ih =>
    by_cases ha : a = star
    · rw [ha, List.filter_cons_of_neg (by simp)]
      exact .star [] hgood ih
    · rw [List.filter_cons_of_pos (by simpa using ha)]
      exact .lit ha ih

end Fills

/-! ## Expansions -/

section Expands

variable {α : Type*}

/-- A rewriting that keeps everything but pieces of `star` and elements of `D`. -/
inductive Expands (star : α) (D : α → Prop) : List α → List α → Prop
  | nil : Expands star D [] []
  | lit (a : α) {c r : List α} (h : Expands star D c r) : Expands star D (a :: c) (a :: r)
  | gap (x y : List α) {c r : List α} (hs : star ∈ x) (hx : ∀ a ∈ x, a = star ∨ D a)
      (h : Expands star D c r) : Expands star D (x ++ c) (y ++ r)

variable {star : α} {D : α → Prop}

theorem Expands.refl (c : List α) : Expands star D c c := by
  induction c with
  | nil => exact .nil
  | cons a c ih => exact .lit a ih

theorem Expands.append {c r c' r' : List α} (h₁ : Expands star D c r)
    (h₂ : Expands star D c' r') : Expands star D (c ++ c') (r ++ r') := by
  induction h₁ with
  | nil => exact h₂
  | lit a _ ih => exact .lit a ih
  | gap x y hs hx _ ih =>
    rw [List.append_assoc, List.append_assoc]
    exact .gap x y hs hx ih

theorem expands_gap {x : List α} (y : List α) (hs : star ∈ x) (hx : ∀ a ∈ x, a = star ∨ D a) :
    Expands star D x y := by
  simpa using Expands.gap x y hs hx Expands.nil

theorem Expands.map {D' : α → Prop} {f : α → α} {c r : List α} (hstar : f star = star)
    (hD : ∀ a, D a → D' (f a)) (h : Expands star D c r) : Expands star D' (c.map f) (r.map f) := by
  induction h with
  | nil => exact .nil
  | lit a _ ih => exact .lit (f a) ih
  | gap x y hs hx _ ih =>
    rw [List.map_append, List.map_append]
    refine .gap _ _ (List.mem_map.mpr ⟨star, hs, hstar⟩) ?_ ih
    intro b hb
    obtain ⟨a, ha, rfl⟩ := List.mem_map.mp hb
    rcases hx a ha with rfl | h
    · exact Or.inl hstar
    · exact Or.inr (hD a h)

theorem Expands.mono {D' : α → Prop} {c r : List α} (hD : ∀ a, D a → D' a)
    (h : Expands star D c r) : Expands star D' c r := by
  simpa using h.map (f := id) rfl hD

theorem Expands.reverse {c r : List α} (h : Expands star D c r) :
    Expands star D c.reverse r.reverse := by
  induction h with
  | nil => exact .nil
  | lit a _ ih =>
    rw [List.reverse_cons, List.reverse_cons]
    exact ih.append (.lit a .nil)
  | gap x y hs hx _ ih =>
    rw [List.reverse_append, List.reverse_append]
    exact ih.append (expands_gap _ (List.mem_reverse.mpr hs) fun a ha =>
      hx a (List.mem_reverse.mp ha))

/-- **What is no star and not in `D` stays**, with what is before and after it rewritten. -/
theorem Expands.split {e : α} (he : e ≠ star) (hD : ¬D e) {x c r : List α}
    (h : Expands star D (x ++ e :: c) r) :
    ∃ r₁ r₂, r = r₁ ++ e :: r₂ ∧ Expands star D x r₁ ∧ Expands star D c r₂ := by
  generalize hl : x ++ e :: c = l at h
  induction h generalizing x with
  | nil => simp at hl
  | @lit a l' r' h ih =>
    cases x with
    | nil =>
      obtain ⟨rfl, rfl⟩ : e = a ∧ c = l' := by simpa using hl
      exact ⟨[], r', rfl, .nil, h⟩
    | cons b x =>
      obtain ⟨rfl, hl'⟩ : b = a ∧ x ++ e :: c = l' := by simpa using hl
      obtain ⟨r₁, r₂, rfl, h₁, h₂⟩ := ih hl'
      exact ⟨b :: r₁, r₂, rfl, .lit b h₁, h₂⟩
  | @gap u y l' r' hs hu h ih =>
    -- the element is not part of the gap, so the gap lies inside `x`
    rcases List.append_eq_append_iff.mp hl with ⟨t, rfl, ht⟩ | ⟨t, rfl, ht⟩
    · cases t with
      | nil =>
        obtain ⟨r₁, r₂, rfl, h₁, h₂⟩ := ih (x := []) (by simpa using ht)
        refine ⟨y ++ r₁, r₂, (List.append_assoc _ _ _).symm, ?_, h₂⟩
        simpa using Expands.gap x y (by simpa using hs) (by simpa using hu) h₁
      | cons b t =>
        obtain rfl : e = b := by simpa using (List.cons.inj ht).1
        rcases hu e (by simp) with h | h
        · exact absurd h he
        · exact absurd h hD
    · obtain ⟨r₁, r₂, rfl, h₁, h₂⟩ := ih ht.symm
      exact ⟨y ++ r₁, r₂, (List.append_assoc _ _ _).symm, .gap u y hs hu h₁, h₂⟩

/-- **Without a star nothing is rewritten.** -/
theorem Expands.literal {u r : List α} (hu : star ∉ u) (h : Expands star D u r) : r = u := by
  induction h with
  | nil => rfl
  | lit a _ ih => rw [ih fun hs => hu (List.mem_cons_of_mem _ hs)]
  | gap x y hs _ _ _ => exact absurd (List.mem_append_left _ hs) hu

/-- **A prefix of elements that stay.** -/
theorem Expands.prefix {A c r : List α} (hA : ∀ a ∈ A, a ≠ star ∧ ¬D a)
    (h : Expands star D (A ++ c) r) : ∃ r', r = A ++ r' ∧ Expands star D c r' := by
  induction A generalizing r with
  | nil => exact ⟨r, rfl, h⟩
  | cons a A ih =>
    obtain ⟨hs, hD⟩ := hA a List.mem_cons_self
    obtain ⟨r₁, r₂, rfl, h₁, h₂⟩ := Expands.split (x := []) hs hD h
    obtain rfl := h₁.literal (by simp)
    obtain ⟨r', rfl, h'⟩ := ih (fun b hb => hA b (List.mem_cons_of_mem _ hb)) h₂
    exact ⟨r', rfl, h'⟩

/-- **A suffix of elements that stay.** -/
theorem Expands.suffix {B c r : List α} (hB : ∀ b ∈ B, b ≠ star ∧ ¬D b)
    (h : Expands star D (c ++ B) r) : ∃ r', r = r' ++ B ∧ Expands star D c r' := by
  have hr := h.reverse
  rw [List.reverse_append] at hr
  obtain ⟨r', he, h'⟩ := hr.prefix fun b hb => hB b (List.mem_reverse.mp hb)
  refine ⟨r'.reverse, ?_, by simpa using h'.reverse⟩
  simpa using congrArg List.reverse he

theorem Expands.ends {A B c r : List α} (hA : ∀ a ∈ A, a ≠ star ∧ ¬D a)
    (hB : ∀ b ∈ B, b ≠ star ∧ ¬D b) (h : Expands star D (A ++ c ++ B) r) :
    ∃ r', r = A ++ r' ++ B := by
  obtain ⟨r₁, rfl, h₁⟩ := h.suffix hB
  obtain ⟨r₂, rfl, -⟩ := h₁.prefix hA
  exact ⟨r₂, rfl⟩

/-! ## Joining blocks -/

variable {wide : List α → Prop} {fits : List α → List α → Prop} {sep : α}

theorem mem_intercalate_wide (hw : ∀ p, wide p → star ∈ p ∧ ∀ a ∈ p, a = star) (hsep : D sep)
    {ps : List (List α)} (hne : ps ≠ []) (h : ∀ p ∈ ps, wide p) :
    star ∈ [sep].intercalate ps ∧ ∀ a ∈ [sep].intercalate ps, a = star ∨ D a := by
  induction ps with
  | nil => exact absurd rfl hne
  | cons p ps ih =>
    obtain ⟨hp, hps⟩ := List.forall_mem_cons.mp h
    obtain ⟨hs, ha⟩ := hw p hp
    by_cases hnil : ps = []
    · subst hnil
      rw [List.intercalate_singleton]
      exact ⟨hs, fun a h => Or.inl (ha a h)⟩
    · obtain ⟨-, hrest⟩ := ih hnil hps
      rw [List.intercalate_cons_of_ne_nil hnil]
      refine ⟨by simp [hs], fun a h => ?_⟩
      simp only [List.append_assoc, List.mem_append, List.mem_singleton] at h
      rcases h with h | rfl | h
      · exact Or.inl (ha a h)
      · exact Or.inr hsep
      · exact hrest a h

theorem intercalate_append (sep : α) (us : List (List α)) {vs : List (List α)} (hvs : vs ≠ []) :
    ∃ y, [sep].intercalate (us ++ vs) = y ++ [sep].intercalate vs := by
  induction us with
  | nil => exact ⟨[], rfl⟩
  | cons u us ih =>
    obtain ⟨y, hy⟩ := ih
    refine ⟨u ++ [sep] ++ y, ?_⟩
    rw [List.cons_append, List.intercalate_cons_of_ne_nil (by simp [hvs]), hy]
    simp only [List.append_assoc]

/-- **Joining the blocks of a cut**: the joined patterns are rewritten into the joined values. -/
theorem expands_intercalate (hw : ∀ p, wide p → star ∈ p ∧ ∀ a ∈ p, a = star) (hsep : D sep)
    (hfit : ∀ p v, fits p v → Expands star D p v) {ps vs : List (List α)}
    (h : Blocks wide fits ps vs) (hne : vs ≠ []) :
    Expands star D ([sep].intercalate ps) ([sep].intercalate vs) := by
  induction h with
  | nil => exact .nil
  | @wide p ps us vs hp h ih =>
    obtain ⟨hs, ha⟩ := hw p hp
    by_cases hps : ps = []
    · subst hps
      rw [List.intercalate_singleton]
      exact expands_gap _ hs fun a h => Or.inl (ha a h)
    by_cases hvs : vs = []
    · -- nothing is left for the remaining patterns, so they are wide too
      subst hvs
      have hall := forall_wide_of_blocks_nil h
      obtain ⟨hs', ha'⟩ := mem_intercalate_wide (D := D) hw hsep (List.cons_ne_nil p ps)
        (List.forall_mem_cons.mpr ⟨hp, hall⟩)
      exact expands_gap _ hs' ha'
    · have hrest := ih hvs
      have hgap : ∀ y, Expands star D (p ++ [sep]) y := fun y =>
        expands_gap y (List.mem_append_left _ hs) fun a h => by
          rcases List.mem_append.mp h with h | h
          · exact Or.inl (ha a h)
          · exact Or.inr (by rw [List.mem_singleton.mp h]; exact hsep)
      obtain ⟨y, hy⟩ := intercalate_append sep us hvs
      rw [List.intercalate_cons_of_ne_nil hps, hy]
      exact (hgap y).append hrest
  | @one p ps v vs hp hv h ih =>
    have hpv := hfit p v hv
    by_cases hps : ps = []
    · subst hps
      rw [blocks_nil_iff.mp h, List.intercalate_singleton, List.intercalate_singleton]
      exact hpv
    by_cases hvs : vs = []
    · subst hvs
      have hall := forall_wide_of_blocks_nil h
      obtain ⟨hs', ha'⟩ := mem_intercalate_wide (D := D) hw hsep hps hall
      rw [List.intercalate_cons_of_ne_nil hps, List.intercalate_singleton]
      have hgap : Expands star D ([sep] ++ [sep].intercalate ps) [] :=
        expands_gap [] (List.mem_append_right _ hs') fun a h => by
          rcases List.mem_append.mp h with h | h
          · exact Or.inr (by rw [List.mem_singleton.mp h]; exact hsep)
          · exact ha' a h
      simpa using hpv.append hgap
    · rw [List.intercalate_cons_of_ne_nil hps, List.intercalate_cons_of_ne_nil hvs]
      exact (hpv.append (.lit sep .nil)).append (ih hvs)

theorem intercalate_splitOnP (f : α → Bool) (sep : α) (s : List α) :
    [sep].intercalate (s.splitOnP f) = s.map fun a => if f a then sep else a := by
  induction s with
  | nil => rfl
  | cons a s ih =>
    rw [List.splitOnP_cons_eq_if_modifyHead, List.map_cons, ← ih]
    have hne := List.splitOnP_ne_nil f s
    by_cases ha : f a
    · rw [if_pos ha, if_pos ha, List.intercalate_cons_of_ne_nil hne]
      simp only [List.nil_append, List.singleton_append]
    · rw [if_neg ha, if_neg ha]
      obtain ⟨x, xs, hx⟩ := List.exists_cons_of_ne_nil hne
      rw [hx, List.modifyHead_cons, List.intercalate_cons_cons_left]

/-! ## Cutting a rewriting -/

theorem not_mem_of_mem_splitOnP {f : α → Bool} {a : α} (ha : f a = true) {s x : List α}
    (hx : x ∈ s.splitOnP f) : a ∉ x := by
  induction s generalizing x with
  | nil =>
    rw [List.splitOnP_nil, List.mem_singleton] at hx
    subst hx
    exact List.not_mem_nil
  | cons b s ih =>
    rw [List.splitOnP_cons_eq_if_modifyHead] at hx
    split_ifs at hx with hb
    · rcases List.mem_cons.mp hx with rfl | hx
      · exact List.not_mem_nil
      · exact ih hx
    · obtain ⟨y, ys, hy⟩ := List.exists_cons_of_ne_nil (List.splitOnP_ne_nil f s)
      rw [hy] at hx ih
      rw [List.modifyHead_cons] at hx
      rcases List.mem_cons.mp hx with rfl | hx
      · have hne : a ≠ b := by
          rintro rfl
          exact hb ha
        exact List.not_mem_cons_of_ne_of_not_mem hne (ih List.mem_cons_self)
      · exact ih (List.mem_cons_of_mem y hx)

theorem mem_of_mem_splitOnP {f : α → Bool} {s x : List α} (hx : x ∈ s.splitOnP f) {a : α}
    (ha : a ∈ x) : a ∈ s := by
  induction s generalizing x with
  | nil =>
    rw [List.splitOnP_nil, List.mem_singleton] at hx
    rwa [hx] at ha
  | cons b s ih =>
    rw [List.splitOnP_cons_eq_if_modifyHead] at hx
    split_ifs at hx with hb
    · rcases List.mem_cons.mp hx with rfl | hx
      · exact absurd ha List.not_mem_nil
      · exact List.mem_cons_of_mem b (ih hx ha)
    · obtain ⟨y, ys, hy⟩ := List.exists_cons_of_ne_nil (List.splitOnP_ne_nil f s)
      rw [hy] at hx ih
      rw [List.modifyHead_cons] at hx
      rcases List.mem_cons.mp hx with rfl | hx
      · rcases List.mem_cons.mp ha with rfl | ha
        · exact List.mem_cons_self
        · exact List.mem_cons_of_mem b (ih List.mem_cons_self ha)
      · exact List.mem_cons_of_mem b (ih (List.mem_cons_of_mem y hx) ha)

theorem splitOnP_map (f : α → Bool) (g : α → α) (s : List α) :
    (s.map g).splitOnP f = (s.splitOnP (f ∘ g)).map (List.map g) := by
  induction s with
  | nil => rfl
  | cons a s ih =>
    rw [List.map_cons, List.splitOnP_cons_eq_if_modifyHead, List.splitOnP_cons_eq_if_modifyHead,
      ih, Function.comp_apply]
    obtain ⟨y, ys, hy⟩ := List.exists_cons_of_ne_nil (List.splitOnP_ne_nil (f ∘ g) s)
    rw [hy]
    split_ifs <;> rfl

theorem intercalate_append_sep (sep : α) {us vs : List (List α)} (hus : us ≠ [])
    (hvs : vs ≠ []) : ∃ y, [sep].intercalate (us ++ vs) = y ++ sep :: [sep].intercalate vs := by
  obtain ⟨us', u, rfl⟩ := List.eq_nil_or_concat us |>.resolve_left hus
  obtain ⟨y, hy⟩ := intercalate_append sep us' (List.cons_ne_nil u vs)
  refine ⟨y ++ u, ?_⟩
  rw [List.concat_eq_append, List.append_assoc, List.singleton_append, hy,
    List.intercalate_cons_of_ne_nil hvs]
  simp only [List.append_assoc, List.singleton_append]

/-- **A rewriting that keeps the separator cuts** the way the joined lists were cut, where the
patterns take only values without a star. -/
theorem expands_cut [DecidableEq α] (hstar : sep ≠ star) (hsep : ¬D sep)
    (hfit : ∀ p v, fits p v → star ∉ v) {ps vs : List (List α)} {r : List α}
    (hv : ∀ v ∈ vs, sep ∉ v) (h : Blocks wide fits ps vs) (hne : vs ≠ [])
    (hr : Expands star D ([sep].intercalate vs) r) : Blocks wide fits ps (r.splitOn sep) := by
  induction h generalizing r with
  | nil => exact absurd rfl hne
  | @wide p ps us vs hp h ih =>
    by_cases hvs : vs = []
    · subst hvs
      have hall := forall_wide_of_blocks_nil h
      exact blocks_of_forall_wide (List.cons_ne_nil p ps) (List.forall_mem_cons.mpr ⟨hp, hall⟩) _
    by_cases hus : us = []
    · subst hus
      exact .wide [] hp (ih (fun v h => hv v h) hvs hr)
    · obtain ⟨y, hy⟩ := intercalate_append_sep sep hus hvs
      rw [hy] at hr
      obtain ⟨r₁, r₂, rfl, -, h₂⟩ := hr.split hstar hsep
      rw [List.splitOn_append_cons_self]
      exact .wide _ hp (ih (fun v h => hv v (List.mem_append_right _ h)) hvs h₂)
  | @one p ps v vs hp hpv h ih =>
    have hno := hfit p v hpv
    have hsv := hv v List.mem_cons_self
    by_cases hvs : vs = []
    · subst hvs
      rw [List.intercalate_singleton] at hr
      rw [hr.literal hno, List.splitOn_eq_singleton hsv]
      exact .one hp hpv h
    · rw [List.intercalate_cons_of_ne_nil hvs, List.append_assoc, List.singleton_append] at hr
      obtain ⟨r₁, r₂, rfl, h₁, h₂⟩ := hr.split hstar hsep
      rw [List.splitOn_append_cons_self, h₁.literal hno, List.splitOn_eq_singleton hsv]
      exact .one hp hpv (ih (fun v h => hv v (List.mem_cons_of_mem _ h)) hvs h₂)

end Expands

end Wildcard
