import Mathlib.Data.List.Induction
import Mathlib.Data.List.Forall2

/-!
# Hash chains

A list of entries in which each entry names the hash before it and carries its own digest, read
from an anchor.

* `Linked`: the chain condition; `linked_append`, `linked_concat`: how chains are extended.
* `tip`: the hash a chain ends in.
* **`forall₂_of_tip_eq`**: chains with one tip agree in their digests, when digests determine the
  hash before.
-/

namespace HashChain

variable {ε η : Type*} (prev hash digest : ε → η)

/-- Each entry points at the hash before it and carries its own digest. -/
def Linked : η → List ε → Prop
  | _, [] => True
  | a, e :: es => prev e = a ∧ digest e = hash e ∧ Linked (hash e) es

/-- The hash the chain ends in. -/
def tip : η → List ε → η
  | a, [] => a
  | _, e :: es => tip (hash e) es

variable {prev hash digest}

@[simp] theorem linked_nil (a : η) : Linked prev hash digest a [] := trivial

@[simp] theorem tip_nil (a : η) : tip hash a [] = a := rfl

theorem tip_append (a : η) (xs ys : List ε) :
    tip hash a (xs ++ ys) = tip hash (tip hash a xs) ys := by
  induction xs generalizing a with
  | nil => rfl
  | cons x xs ih => exact ih (hash x)

@[simp] theorem tip_concat (a : η) (es : List ε) (e : ε) : tip hash a (es ++ [e]) = hash e :=
  tip_append a es [e]

theorem linked_append {a : η} {xs ys : List ε} :
    Linked prev hash digest a (xs ++ ys) ↔
      Linked prev hash digest a xs ∧ Linked prev hash digest (tip hash a xs) ys := by
  induction xs generalizing a with
  | nil => simp
  | cons x xs ih =>
    simp only [List.cons_append, Linked, tip]
    rw [ih]
    tauto

theorem linked_concat {a : η} {es : List ε} {e : ε} :
    Linked prev hash digest a (es ++ [e]) ↔
      Linked prev hash digest a es ∧ prev e = tip hash a es ∧ digest e = hash e := by
  rw [linked_append]
  simp [Linked]

theorem tip_of_getLast? {a : η} {es : List ε} {e : ε} (h : es.getLast? = some e) :
    tip hash a es = hash e := by
  obtain ⟨ds, rfl⟩ := List.getLast?_eq_some_iff.mp h
  exact tip_concat a ds e

theorem forall₂_concat {R : ε → ε → Prop} (xs ys : List ε) (x y : ε) :
    List.Forall₂ R (xs ++ [x]) (ys ++ [y]) ↔ List.Forall₂ R xs ys ∧ R x y := by
  rw [← List.forall₂_reverse_iff, List.reverse_append, List.reverse_append]
  simp only [List.reverse_cons, List.reverse_nil, List.nil_append, List.singleton_append,
    List.forall₂_cons, List.forall₂_reverse_iff]
  exact and_comm

theorem digest_of_mem {a : η} {es : List ε} (h : Linked prev hash digest a es) :
    ∀ e ∈ es, digest e = hash e := by
  induction es generalizing a with
  | nil => simp
  | cons e es ih =>
    obtain ⟨-, hd, hrest⟩ := h
    intro d hdmem
    rcases List.mem_cons.mp hdmem with rfl | hmem
    · exact hd
    · exact ih hrest d hmem

/-- **Backward along two chains**: from one tip, every pair of entries has one digest, when equal
digests of paired entries name equal predecessors. -/
theorem forall₂_of_tip_eq {a : η} {xs ys : List ε} (hx : Linked prev hash digest a xs)
    (hy : Linked prev hash digest a ys) (htip : tip hash a xs = tip hash a ys)
    (hinj : List.Forall₂ (fun x y => digest x = digest y → prev x = prev y) xs ys) :
    List.Forall₂ (fun x y => digest x = digest y) xs ys := by
  induction xs using List.reverseRecOn generalizing ys with
  | nil =>
    obtain rfl := List.forall₂_nil_left_iff.mp hinj
    exact .nil
  | append_singleton xs x ih =>
    rcases List.eq_nil_or_concat ys with rfl | ⟨ys, y, rfl⟩
    · simp at hinj
    · rw [List.concat_eq_append] at *
      obtain ⟨hpairs, hlast⟩ := (forall₂_concat xs ys x y).mp hinj
      rw [linked_concat] at hx hy
      obtain ⟨hx, hpx, hdx⟩ := hx
      obtain ⟨hy, hpy, hdy⟩ := hy
      rw [tip_concat, tip_concat] at htip
      have hd : digest x = digest y := by rw [hdx, hdy, htip]
      exact (forall₂_concat xs ys x y).mpr
        ⟨ih hx hy (by rw [← hpx, ← hpy, hlast hd]) hpairs, hd⟩

end HashChain
