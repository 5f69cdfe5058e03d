import Mathlib.Data.List.Count
import Mathlib.Logic.Function.Basic

/-!
# Indexes

Every key has at most one owner; an index lists for each owner its keys.

* `Inverts`: the index lists every key once under its owner, and nowhere else.
* **`Inverts.push`**, **`Inverts.drop`**, **`Inverts.dropAll`**, **`Inverts.move`**: a key gets an
  owner or loses it, an owner loses all of its keys or hands them over.
-/

namespace Index

variable {κ α : Type*} [DecidableEq κ] [DecidableEq α]

/-- The index lists every key once under its owner, and nowhere else. -/
def Inverts (listed : α → List κ) (owner : κ → Option α) : Prop :=
  ∀ a k, (listed a).count k = if owner k = some a then 1 else 0

variable {listed : α → List κ} {owner : κ → Option α} {a b : α} {k : κ}

theorem Inverts.mem_iff (h : Inverts listed owner) : k ∈ listed a ↔ owner k = some a := by
  rw [← List.count_pos_iff, h a k]
  split_ifs with howner
  · exact iff_of_true Nat.one_pos howner
  · exact iff_of_false (Nat.lt_irrefl 0) howner

theorem Inverts.push (h : Inverts listed owner) (a : α) (hk : owner k = none) :
    Inverts (Function.update listed a (listed a ++ [k])) (Function.update owner k (some a)) := by
  intro b k'
  have hold := h b k'
  by_cases hkey : k' = k
  · subst hkey
    rw [hk, if_neg nofun] at hold
    rw [Function.update_self]
    by_cases hb : b = a
    · subst hb
      rw [Function.update_self, List.count_append, hold, List.count_singleton_self, if_pos rfl]
    · rw [Function.update_of_ne hb, hold, if_neg fun heq => hb (Option.some.inj heq).symm]
  · rw [Function.update_of_ne hkey, ← hold]
    by_cases hb : b = a
    · subst hb
      have hnone : [k].count k' = 0 :=
        List.count_eq_zero_of_not_mem fun hmem => hkey (List.mem_singleton.mp hmem)
      rw [Function.update_self, List.count_append, hnone, Nat.add_zero]
    · rw [Function.update_of_ne hb]

theorem Inverts.drop (h : Inverts listed owner) (hk : owner k = some a) :
    Inverts (Function.update listed a ((listed a).filter fun k' => decide (k' ≠ k)))
      (Function.update owner k none) := by
  intro b k'
  have hold := h b k'
  by_cases hkey : k' = k
  · subst hkey
    rw [Function.update_self, if_neg nofun]
    by_cases hb : b = a
    · subst hb
      rw [Function.update_self]
      exact List.count_eq_zero_of_not_mem fun hmem =>
        of_decide_eq_true (List.mem_filter.mp hmem).2 rfl
    · rw [Function.update_of_ne hb, hold, hk, if_neg fun heq => hb (Option.some.inj heq).symm]
  · rw [Function.update_of_ne hkey, ← hold]
    by_cases hb : b = a
    · subst hb
      rw [Function.update_self]
      exact List.count_filter (decide_eq_true hkey)
    · rw [Function.update_of_ne hb]

theorem Inverts.dropAll (h : Inverts listed owner) (a : α) :
    Inverts (Function.update listed a [])
      (fun k => if owner k = some a then none else owner k) := by
  intro b k
  have hold := h b k
  dsimp only
  by_cases hb : b = a
  · subst hb
    rw [Function.update_self, List.count_nil]
    have hnot : (if owner k = some b then none else owner k) ≠ some b := by
      split_ifs with howner
      · nofun
      · exact howner
    exact (if_neg hnot).symm
  · rw [Function.update_of_ne hb, hold]
    by_cases howner : owner k = some a
    · simp only [howner, if_true, reduceCtorEq, if_false, Option.some.injEq]
      exact if_neg fun heq => hb heq.symm
    · simp only [if_neg howner]

theorem Inverts.move (h : Inverts listed owner) (a b : α) :
    Inverts (Function.update (Function.update listed a []) b
        (Function.update listed a [] b ++ listed a))
      (fun k => if owner k = some a then some b else owner k) := by
  intro c k
  have hrest := h.dropAll a c k
  have hmoved := h a k
  dsimp only at hrest ⊢
  by_cases hc : c = b
  · subst hc
    rw [Function.update_self, List.count_append, hrest, hmoved]
    by_cases howner : owner k = some a
    · simp only [howner, if_true, reduceCtorEq, if_false, Nat.zero_add]
    · simp only [if_neg howner, Nat.add_zero]
  · rw [Function.update_of_ne hc, hrest]
    by_cases howner : owner k = some a
    · simp only [howner, if_true, reduceCtorEq, if_false, Option.some.injEq]
      exact (if_neg fun heq => hc heq.symm).symm
    · simp only [if_neg howner]

end Index
