import Mathlib.Data.List.Count

/-!
# Claims

A pool of calls works on shared maps in several steps. What a map lists is claimed by what is
stored, or by a call that has not finished.

* `Balanced`: everything is listed as often as it is claimed.
* **`Balanced.step`**: a step of one call keeps the balance if its own share does.
* **`Balanced.quiet`**: when no call claims anything, what is listed is what is stored.
-/

namespace Claims

variable {κ ρ : Type*}

/-- Everything is listed as often as it is claimed, by what is stored or by a call. -/
def Balanced (stored : κ → ℕ) (claims : ρ → κ → Bool) (calls : List ρ) (listed : κ → ℕ) : Prop :=
  ∀ k, stored k + calls.countP (claims · k) = listed k

theorem countP_set {P : ρ → Bool} {calls : List ρ} {i : ℕ} {p : ρ} (h : calls[i]? = some p)
    (p' : ρ) : (calls.set i p').countP P + (P p).toNat = calls.countP P + (P p').toNat := by
  induction calls generalizing i with
  | nil => cases h
  | cons q calls ih =>
    cases i with
    | zero =>
      obtain rfl := Option.some.inj h
      rw [List.set_cons_zero, List.countP_cons, List.countP_cons]
      cases P q <;> cases P p' <;> simp
    | succ i =>
      have hrest := ih h
      rw [List.set_cons_succ, List.countP_cons, List.countP_cons]
      omega

theorem count_flatMap_set {α : Type*} [BEq α] {f : ρ → List α} {calls : List ρ} {i : ℕ}
    {p : ρ} (h : calls[i]? = some p) (p' : ρ) (a : α) :
    ((calls.set i p').flatMap f).count a + (f p).count a =
      (calls.flatMap f).count a + (f p').count a := by
  induction calls generalizing i with
  | nil => cases h
  | cons q calls ih =>
    cases i with
    | zero =>
      obtain rfl := Option.some.inj h
      rw [List.set_cons_zero, List.flatMap_cons, List.flatMap_cons, List.count_append,
        List.count_append]
      omega
    | succ i =>
      have hrest := ih h
      rw [List.set_cons_succ, List.flatMap_cons, List.flatMap_cons, List.count_append,
        List.count_append]
      omega

variable {stored stored' listed listed' : κ → ℕ} {claims : ρ → κ → Bool} {calls : List ρ} {i : ℕ}
  {p p' : ρ} {k : κ}

theorem eq_of_countP_le_one {P : ρ → Bool} (h : calls.countP P ≤ 1) {j : ℕ} {q : ρ}
    (hi : calls[i]? = some p) (hp : P p = true) (hj : calls[j]? = some q) (hq : P q = true) :
    i = j := by
  induction calls generalizing i j with
  | nil => cases hi
  | cons r calls ih =>
    have hnone (hr : P r = true) {q : ρ} (hmem : q ∈ calls) : P q ≠ true := by
      rw [List.countP_cons_of_pos hr] at h
      exact List.countP_eq_zero.mp (by omega) q hmem
    cases i with
    | zero =>
      obtain rfl := Option.some.inj hi
      cases j with
      | zero => rfl
      | succ j => exact absurd hq (hnone hp (List.mem_of_getElem? hj))
    | succ i =>
      cases j with
      | zero =>
        obtain rfl := Option.some.inj hj
        exact absurd hp (hnone hq (List.mem_of_getElem? hi))
      | succ j =>
        have hle : calls.countP P ≤ 1 :=
          Nat.le_trans ((List.sublist_cons_self r calls).countP_le) h
        rw [ih hle hi hj]

theorem Balanced.begin (h : Balanced stored claims calls listed) (hp : ∀ k, claims p k = false) :
    Balanced stored claims (calls ++ [p]) listed := by
  intro k
  rw [List.countP_append, List.countP_singleton, hp k]
  exact h k

/-- **A step of one call.** -/
theorem Balanced.step (h : Balanced stored claims calls listed) (hi : calls[i]? = some p)
    (hstep : ∀ k, stored' k + (claims p' k).toNat + listed k =
      stored k + (claims p k).toNat + listed' k) :
    Balanced stored' claims (calls.set i p') listed' := by
  intro k
  have hbefore := h k
  have hown := hstep k
  have hset := countP_set (P := (claims · k)) hi p'
  omega

theorem Balanced.unclaimed (h : Balanced stored claims calls listed) (hk : listed k = 0) :
    stored k = 0 ∧ ∀ p ∈ calls, claims p k = false := by
  have hsum := h k
  rw [hk, Nat.add_eq_zero_iff, List.countP_eq_zero] at hsum
  exact ⟨hsum.1, fun p hp => Bool.eq_false_iff.mpr (hsum.2 p hp)⟩

theorem Balanced.own (h : Balanced stored claims calls listed) (hi : calls[i]? = some p)
    (hclaim : claims p k = true) (hsingle : listed k ≤ 1) : stored k = 0 ∧ listed k = 1 := by
  have hsum := h k
  have hpos : 0 < calls.countP (claims · k) :=
    List.countP_pos_iff.mpr ⟨p, List.mem_of_getElem? hi, hclaim⟩
  omega

/-- **When no call claims anything, what is listed is what is stored.** -/
theorem Balanced.quiet (h : Balanced stored claims calls listed)
    (hquiet : ∀ p ∈ calls, ∀ k, claims p k = false) (k : κ) : listed k = stored k := by
  have hnone : calls.countP (claims · k) = 0 :=
    List.countP_eq_zero.mpr fun p hp => Bool.eq_false_iff.mp (hquiet p hp k)
  rw [← h k, hnone, Nat.add_zero]

end Claims
