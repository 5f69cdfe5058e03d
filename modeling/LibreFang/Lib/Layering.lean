import Mathlib.Data.Fintype.Card
import Mathlib.Data.Fintype.EquivFin
import Mathlib.Data.Fintype.Sets
import Mathlib.Order.WellFounded
import Mathlib.Logic.Relation

/-!
# Layers of a relation

`r a b` says that `a` depends on `b`.

* `Acyclic`: nothing depends on itself, however indirectly.
* `Layered`: whatever a layer depends on is in earlier layers; `Layered.concat`: one more layer.
* **`Layered.acyclic`**: a relation whose elements are all in layers is acyclic.
* **`exists_ready`**: as long as some element of a finite acyclic relation is not done, one is not
  done of which all is done that it depends on.
-/

namespace Layering

open Relation

variable {α : Type*} {r : α → α → Prop} {layers : List (List α)}

/-- Nothing depends on itself, however indirectly. -/
def Acyclic (r : α → α → Prop) : Prop := ∀ a, ¬ TransGen r a a

/-- What something in a layer depends on is in an earlier layer. -/
def Layered (r : α → α → Prop) (layers : List (List α)) : Prop :=
  ∀ (k : ℕ) layer a b, layers[k]? = some layer → a ∈ layer → r a b →
    ∃ i < k, ∃ earlier, layers[i]? = some earlier ∧ b ∈ earlier

theorem layered_nil : Layered r [] := by
  intro k layer a b h
  cases h

theorem Layered.concat {layer : List α} (h : Layered r layers)
    (hlayer : ∀ a ∈ layer, ∀ b, r a b → b ∈ layers.flatten) : Layered r (layers ++ [layer]) := by
  intro k layer' a b hk ha hab
  rw [List.getElem?_append] at hk
  split_ifs at hk with hlt
  · obtain ⟨i, hi, earlier, hget, hb⟩ := h k layer' a b hk ha hab
    exact ⟨i, hi, earlier, (List.getElem?_append_left (hi.trans hlt)).trans hget, hb⟩
  · rw [List.getElem?_singleton] at hk
    split_ifs at hk with hzero
    cases hk
    obtain ⟨earlier, hmem, hb⟩ := List.mem_flatten.mp (hlayer a ha b hab)
    obtain ⟨i, hi, hget⟩ := List.mem_iff_getElem.mp hmem
    have hsome : layers[i]? = some earlier := List.getElem?_eq_some_iff.mpr ⟨hi, hget⟩
    exact ⟨i, by omega, earlier, (List.getElem?_append_left hi).trans hsome, hb⟩

theorem Layered.of_transGen (h : Layered r layers) {k : ℕ} {layer : List α} {a b : α}
    (hk : layers[k]? = some layer) (ha : a ∈ layer) (hab : TransGen r a b) :
    ∃ i < k, ∃ earlier, layers[i]? = some earlier ∧ b ∈ earlier := by
  induction hab with
  | single hab => exact h k layer a _ hk ha hab
  | tail _ hbc ih =>
    obtain ⟨i, hi, earlier, hget, hb⟩ := ih
    obtain ⟨j, hj, first, hget', hc⟩ := h i earlier _ _ hget hb hbc
    exact ⟨j, hj.trans hi, first, hget', hc⟩

theorem Layered.mem_flatten (h : Layered r layers) {a b : α} (ha : a ∈ layers.flatten)
    (hab : r a b) : b ∈ layers.flatten := by
  obtain ⟨layer, hlayer, ha⟩ := List.mem_flatten.mp ha
  obtain ⟨k, hk⟩ := List.getElem?_of_mem hlayer
  obtain ⟨i, -, earlier, hget, hb⟩ := h k layer a b hk ha hab
  exact List.mem_flatten_of_mem (List.mem_of_getElem? hget) hb

/-- **A relation whose elements are all in layers is acyclic.** -/
theorem Layered.acyclic (h : Layered r layers) (hall : ∀ a b, r a b → a ∈ layers.flatten) :
    Acyclic r := by
  intro a haa
  have hnone : ∀ (k : ℕ) layer, layers[k]? = some layer → a ∉ layer := by
    intro k
    induction k using Nat.strong_induction_on with
    | h k ih =>
      intro layer hk ha
      obtain ⟨i, hi, earlier, hget, ha'⟩ := h.of_transGen hk ha haa
      exact ih i hi earlier hget ha'
  obtain ⟨b, hab, -⟩ := TransGen.head'_iff.mp haa
  obtain ⟨layer, hlayer, ha⟩ := List.mem_flatten.mp (hall a b hab)
  obtain ⟨k, hk⟩ := List.getElem?_of_mem hlayer
  exact hnone k layer hk ha

/-- **As long as some element is not done, one is ready.** -/
theorem exists_ready [DecidableEq α] (hr : Acyclic r) {all : List α}
    (hclosed : ∀ a ∈ all, ∀ b, r a b → b ∈ all) {done : Set α} (hrest : ∃ a ∈ all, a ∉ done) :
    ∃ a ∈ all, a ∉ done ∧ ∀ b, r a b → b ∈ done := by
  let below (b a : {x // x ∈ all}) : Prop := TransGen r a.1 b.1
  have : IsTrans {x // x ∈ all} below := ⟨fun _ _ _ hab hbc => hbc.trans hab⟩
  have : Std.Irrefl below := ⟨fun a h => hr a.1 h⟩
  have hwf : WellFounded below := Finite.wellFounded_of_trans_of_irrefl below
  obtain ⟨a, ha, hnot⟩ := hrest
  obtain ⟨m, hm, hmin⟩ := hwf.has_min {x | x.1 ∉ done} ⟨⟨a, ha⟩, hnot⟩
  refine ⟨m.1, m.2, hm, fun b hb => ?_⟩
  by_contra hout
  exact hmin ⟨b, hclosed m.1 m.2 b hb⟩ hout (.single hb)

end Layering
