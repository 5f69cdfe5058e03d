import Mathlib.Algebra.GroupWithZero.Nat
import Mathlib.Data.List.Infix
import Mathlib.Data.List.Perm.Subperm
import Mathlib.Order.Basic

/-!
# The matches of a word in a text

Where a word occurs in a text when the text is searched from left to right, each search starting
behind the match before.

* `Agree`: one of two words begins with the other; `Apart`: two words that cannot overlap.
* **`disjoint_of_apart`**: in a text, words that are apart stand one behind the other;
  `infix_iff_of_apart`.
* **`mem_positions`**: a word that cannot overlap itself is found wherever it occurs.
-/

namespace Matches

variable {α : Type*}

/-! ## Overlaps -/

/-- The words agree as far as both of them go. -/
def Agree (u v : List α) : Prop := u <+: v ∨ v <+: u

instance [DecidableEq α] (u v : List α) : Decidable (Agree u v) :=
  inferInstanceAs (Decidable (_ ∨ _))

/-- No end of `u`, from index `k` on, agrees with `v`. -/
def NoEndAgrees (k : ℕ) (u v : List α) : Prop := ∀ i < u.length, k ≤ i → ¬ Agree (u.drop i) v

instance [DecidableEq α] (k : ℕ) (u v : List α) : Decidable (NoEndAgrees k u v) :=
  inferInstanceAs (Decidable (∀ i < u.length, k ≤ i → ¬ Agree (u.drop i) v))

/-- The words cannot overlap in a text. -/
def Apart (q w : List α) : Prop := NoEndAgrees 0 w q ∧ NoEndAgrees 1 q w

instance [DecidableEq α] (q w : List α) : Decidable (Apart q w) :=
  inferInstanceAs (Decidable (_ ∧ _))

/-- The word cannot overlap itself in a text. -/
def Borderless (m : List α) : Prop := NoEndAgrees 1 m m

instance [DecidableEq α] (m : List α) : Decidable (Borderless m) :=
  inferInstanceAs (Decidable (NoEndAgrees 1 m m))

variable {q w m a b a' b' s u : List α}

theorem agree_of_append_eq {u v s t : List α} (h : u ++ s = v ++ t) : Agree u v :=
  List.prefix_or_prefix_of_prefix ⟨s, h⟩ ⟨t, rfl⟩

theorem length_le_of_noEndAgrees (h : NoEndAgrees 0 w q) (e : a ++ (w ++ b) = a' ++ (q ++ b'))
    (hle : a.length ≤ a'.length) : a.length + w.length ≤ a'.length := by
  by_contra hlt
  obtain ⟨k, hk⟩ := Nat.exists_eq_add_of_le hle
  have hkw : k < w.length := by omega
  refine h k hkw (Nat.zero_le k) (agree_of_append_eq (s := b) (t := b') ?_)
  have hdrop := congrArg (List.drop a'.length) e
  rwa [List.drop_left, hk, List.drop_length_add_append, List.drop_append_of_le_length hkw.le]
    at hdrop

/-- **Words that are apart stand one behind the other.** -/
theorem disjoint_of_apart (h : Apart q w) (e : a ++ (w ++ b) = a' ++ (q ++ b')) :
    a.length + w.length ≤ a'.length ∨ a'.length + q.length ≤ a.length := by
  rcases Nat.lt_or_ge a'.length a.length with hlt | hle
  · refine Or.inr (Nat.le_of_not_lt fun hover => ?_)
    obtain ⟨k, hk⟩ := Nat.exists_eq_add_of_le hlt.le
    have hkq : k < q.length := by omega
    refine h.2 k hkq (by omega) (agree_of_append_eq (s := b') (t := b) ?_)
    have hdrop := congrArg (List.drop a.length) e
    rw [List.drop_left, hk, List.drop_length_add_append, List.drop_append_of_le_length hkq.le]
      at hdrop
    exact hdrop.symm
  · exact Or.inl (length_le_of_noEndAgrees h.1 e hle)

theorem exists_of_length_le {t : List α} (e : a ++ s = a' ++ (q ++ t))
    (h : a'.length + q.length ≤ a.length) : ∃ x, a = a' ++ (q ++ x) ∧ t = x ++ s := by
  obtain ⟨x, rfl⟩ : a' ++ q <+: a :=
    List.prefix_of_prefix_length_le ⟨t, by rw [List.append_assoc, e]⟩ ⟨s, rfl⟩ (by simpa using h)
  refine ⟨x, List.append_assoc _ _ _, ?_⟩
  simp only [List.append_assoc, List.append_cancel_left_eq] at e
  exact e.symm

theorem infix_iff_of_apart (h : Apart q w) : q <:+: a ++ (w ++ b) ↔ q <:+: a ∨ q <:+: b := by
  constructor
  · rintro ⟨a', b', e⟩
    rw [List.append_assoc] at e
    rcases disjoint_of_apart h e.symm with hle | hle
    · obtain ⟨x, -, rfl⟩ := exists_of_length_le e hle
      exact Or.inr ⟨x, b', List.append_assoc _ _ _⟩
    · obtain ⟨x, rfl, -⟩ := exists_of_length_le e.symm hle
      exact Or.inl ⟨a', x, List.append_assoc _ _ _⟩
  · rintro (h | h)
    · exact h.trans (List.prefix_append a _).isInfix
    · exact h.trans ((List.suffix_append w b).trans (List.suffix_append a _)).isInfix

theorem infix_append_of_head_not_mem {c : α} (hc : c ∉ u) : c :: m <:+: u ++ s ↔ c :: m <:+: s := by
  induction u with
  | nil => rfl
  | cons d u ih =>
    obtain ⟨hcd, hcu⟩ := not_or.mp (mt List.mem_cons.mpr hc)
    rw [List.cons_append, List.infix_cons_iff, ih hcu, or_iff_right]
    exact fun h => hcd (List.cons_prefix_cons.mp h).1

/-! ## The positions of the matches -/

section Positions

variable (weight : α → ℕ)

/-- The weight of a text. -/
def total (s : List α) : ℕ := (s.map weight).sum

@[simp] theorem total_nil : total weight [] = 0 := rfl

@[simp] theorem total_cons (c : α) (s : List α) :
    total weight (c :: s) = weight c + total weight s := rfl

@[simp] theorem total_append (s t : List α) :
    total weight (s ++ t) = total weight s + total weight t := by
  unfold total
  rw [List.map_append, List.sum_append]

variable [DecidableEq α]

/-- The positions of the matches of `m`. The letters of a match are skipped. -/
def positions (m : List α) : ℕ → ℕ → List α → List ℕ
  | _, _, [] => []
  | skip + 1, pos, c :: s => positions m skip (pos + weight c) s
  | 0, pos, c :: s =>
    if m.isPrefixOf (c :: s) then pos :: positions m (m.length - 1) (pos + weight c) s
    else positions m 0 (pos + weight c) s

variable {weight}

theorem positions_skip (pos : ℕ) (u s : List α) (k : ℕ) :
    positions weight m (u.length + k) pos (u ++ s) =
      positions weight m k (pos + total weight u) s := by
  induction u generalizing pos with
  | nil => simp
  | cons c u ih =>
    rw [List.length_cons, Nat.add_right_comm, List.cons_append, positions, ih, total_cons,
      Nat.add_assoc]

theorem positions_match (hm : m ≠ []) (pos : ℕ) (s : List α) :
    positions weight m 0 pos (m ++ s) =
      pos :: positions weight m 0 (pos + total weight m) s := by
  cases m with
  | nil => exact absurd rfl hm
  | cons c m =>
    rw [List.cons_append, positions, if_pos]
    · rw [List.length_cons, Nat.add_sub_cancel]
      have hskip := @positions_skip _ (c :: m) weight _ (pos + weight c) m s 0
      rw [Nat.add_zero] at hskip
      rw [hskip, total_cons, Nat.add_assoc]
    · rw [List.isPrefixOf_iff_prefix]
      exact ⟨s, rfl⟩

theorem positions_of_not_start {c : α} (h : ¬ m <+: c :: s) (pos : ℕ) :
    positions weight m 0 pos (c :: s) = positions weight m 0 (pos + weight c) s := by
  rw [positions, if_neg]
  rwa [List.isPrefixOf_iff_prefix]

theorem positions_of_head_not_mem {c : α} (hc : c ∉ u) (pos : ℕ) (s : List α) :
    positions weight (c :: m) 0 pos (u ++ s) =
      positions weight (c :: m) 0 (pos + total weight u) s := by
  induction u generalizing pos with
  | nil => simp
  | cons d u ih =>
    obtain ⟨hcd, hcu⟩ := not_or.mp (mt List.mem_cons.mpr hc)
    rw [List.cons_append, positions_of_not_start fun h => hcd (List.cons_prefix_cons.mp h).1,
      ih hcu, total_cons, Nat.add_assoc]

/-- **A word that cannot overlap itself is found wherever it occurs.** -/
theorem mem_positions (hm : m ≠ []) (hb : Borderless m) (pos : ℕ) (a b : List α) :
    pos + total weight a ∈ positions weight m 0 pos (a ++ (m ++ b)) := by
  -- induction on what is before the occurrence: the search takes a match or a letter off it
  induction h : a.length using Nat.strongRecOn generalizing pos a with
  | _ n ih =>
    cases a with
    | nil =>
      rw [List.nil_append, positions_match hm]
      exact List.mem_cons_self
    | cons c a =>
      by_cases hp : m <+: c :: a ++ (m ++ b)
      · obtain ⟨t, ht⟩ := hp
        have hle : m.length ≤ (c :: a).length := by
          by_contra hlt
          have hpos : 0 < (c :: a).length := Nat.succ_pos _
          refine hb (c :: a).length (by omega) hpos (agree_of_append_eq (s := t) (t := b) ?_)
          have hdrop := congrArg (List.drop (c :: a).length) ht
          rwa [List.drop_left, List.drop_append_of_le_length (by omega)] at hdrop
        obtain ⟨x, hx⟩ := List.prefix_of_prefix_length_le ⟨t, ht⟩ ⟨m ++ b, rfl⟩ hle
        have hlen : x.length < n := by
          have hmpos := List.length_pos_iff.mpr hm
          have := congrArg List.length hx
          rw [List.length_append] at this
          omega
        rw [← hx, List.append_assoc, positions_match hm, total_append, ← Nat.add_assoc]
        exact List.mem_cons_of_mem _ (ih x.length hlen _ x rfl)
      · rw [List.cons_append] at hp ⊢
        rw [positions_of_not_start hp, total_cons, ← Nat.add_assoc]
        exact ih a.length (by rw [← h]; exact Nat.lt_succ_self _) _ a rfl

theorem pairwise_lt_positions (hw : ∀ c, 0 < weight c) (m : List α) (skip pos : ℕ) (s : List α) :
    (∀ p ∈ positions weight m skip pos s, pos ≤ p) ∧
      (positions weight m skip pos s).Pairwise (· < ·) := by
  induction s generalizing skip pos with
  | nil => cases skip <;> exact ⟨by simp [positions], by simp [positions]⟩
  | cons c s ih =>
    have hc := hw c
    cases skip with
    | succ skip =>
      rw [positions]
      exact ⟨fun p hp => by have := (ih skip (pos + weight c)).1 p hp; omega, (ih _ _).2⟩
    | zero =>
      rw [positions]
      split_ifs
      · obtain ⟨hle, hlt⟩ := ih (m.length - 1) (pos + weight c)
        refine ⟨fun p hp => ?_, List.pairwise_cons.mpr ⟨fun p hp => ?_, hlt⟩⟩
        · rcases List.mem_cons.mp hp with rfl | hp
          · exact le_rfl
          · have := hle p hp
            omega
        · have := hle p hp
          omega
      · exact ⟨fun p hp => by have := (ih 0 (pos + weight c)).1 p hp; omega, (ih _ _).2⟩

end Positions

/-- **An increasing list inside another increasing list as long** is that list. -/
theorem eq_of_subset_of_pairwise_lt {l l' : List ℕ} (hl : l.Pairwise (· < ·))
    (hl' : l'.Pairwise (· < ·)) (hsub : l ⊆ l') (hlen : l'.length ≤ l.length) : l = l' := by
  have hnodup : l.Nodup := hl.imp fun h => ne_of_lt h
  have hperm : l.Perm l' := (List.subperm_of_subset hnodup hsub).perm_of_length_le hlen
  exact hperm.eq_of_pairwise (fun x y _ _ hxy hyx => absurd hxy (lt_asymm hyx)) hl hl'

end Matches
