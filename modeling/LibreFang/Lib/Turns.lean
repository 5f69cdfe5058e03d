import Mathlib.Data.List.GetD
import Mathlib.Data.List.Rotate

/-!
# Taking turns

Some places of a row are open, and they are to have their turns one after the other. All that is
kept of it is a place: the turn goes to the first open place from there on, or to the first one of
all.

* `turn`: the place whose turn it is; `nth`: the open places, around and around.
* **`round_perm`**: as many turns as there are open places, and each of them has had its turn.
-/

namespace Turns

variable {places : List ℕ}

/-- The first place from `start` on, or the first place of all. -/
def turn (places : List ℕ) (start : ℕ) : Option ℕ :=
  (places.find? (start ≤ ·)).or places.head?

/-- The places one after the other, around and around. -/
def nth (places : List ℕ) (i : ℕ) : ℕ := places.getD (i % places.length) 0

theorem nth_mem (hne : places ≠ []) (i : ℕ) : nth places i ∈ places := by
  have hlt : i % places.length < places.length := Nat.mod_lt _ (List.length_pos_of_ne_nil hne)
  rw [nth, List.getD_eq_getElem _ _ hlt]
  exact List.getElem_mem hlt

theorem exists_nth {place : ℕ} (h : place ∈ places) : ∃ i, nth places i = place := by
  obtain ⟨i, hi, rfl⟩ := List.mem_iff_getElem.mp h
  exact ⟨i, by rw [nth, Nat.mod_eq_of_lt hi, List.getD_eq_getElem _ _ hi]⟩

theorem exists_turn (hne : places ≠ []) (start : ℕ) :
    ∃ i, turn places start = some (nth places i) := by
  suffices h : ∃ place ∈ places, turn places start = some place by
    obtain ⟨place, hmem, hturn⟩ := h
    obtain ⟨i, rfl⟩ := exists_nth hmem
    exact ⟨i, hturn⟩
  unfold turn
  cases hfind : places.find? (start ≤ ·) with
  | some place => exact ⟨place, List.mem_of_find?_eq_some hfind, rfl⟩
  | none => exact ⟨places.head hne, List.head_mem hne, List.head?_eq_some_head hne⟩

theorem turn_self (hsorted : places.Pairwise (· < ·)) {place : ℕ} (h : place ∈ places) :
    turn places place = some place := by
  obtain ⟨before, after, rfl⟩ := List.mem_iff_append.mp h
  have hfind : (before ++ place :: after).find? (place ≤ ·) = some place := by
    apply List.find?_eq_some_iff_append.mpr
    refine ⟨by simp, before, after, rfl, fun x hx => ?_⟩
    have hlt := (List.pairwise_append.mp hsorted).2.2 x hx place List.mem_cons_self
    simpa using hlt
  rw [turn, hfind, Option.some_or]

theorem turn_of_length_le_one (hle : places.length ≤ 1) (start i : ℕ) (hne : places ≠ []) :
    turn places start = some (nth places i) := by
  obtain ⟨j, hturn⟩ := exists_turn hne start
  have hone : places.length = 1 := le_antisymm hle (List.length_pos_of_ne_nil hne)
  rw [hturn, nth, nth, hone, Nat.mod_one, Nat.mod_one]

/-- The turns from the `i`-th on. -/
def round (places : List ℕ) (i n : ℕ) : List ℕ := (List.range n).map fun k => nth places (i + k)

theorem round_succ (i n : ℕ) : round places i (n + 1) = nth places i :: round places (i + 1) n := by
  unfold round
  rw [List.range_succ_eq_map, List.map_cons, List.map_map]
  refine congrArg _ (List.map_congr_left fun k _ => ?_)
  rw [Function.comp_apply, Nat.succ_eq_add_one]
  exact congrArg _ (by omega)

/-- **After as many turns as there are open places, each has had its turn.** -/
theorem round_perm (places : List ℕ) (i : ℕ) : (round places i places.length).Perm places := by
  have hrotate : round places i places.length = places.rotate i := by
    apply List.ext_getElem
    · simp [round]
    · intro k hk _
      have hlt : k < places.length := by simpa [round] using hk
      have hmod : (i + k) % places.length < places.length := Nat.mod_lt _ (by omega)
      rw [List.getElem_rotate]
      simp only [round, List.getElem_map, List.getElem_range]
      rw [nth, List.getD_eq_getElem _ _ hmod]
      simp only [Nat.add_comm i k]
  rw [hrotate]
  exact List.rotate_perm places i

end Turns
