import Mathlib.Algebra.Order.Ring.Nat

/-!
# Bisection

The last number with a property that holds up to some place and not beyond it.

* `lastTrue`: the search between two bounds, which asks about the number halfway.
* **`lastTrue_spec`**: what the search finds has the property, and no number beyond it has.
-/

namespace Bisect

/-- The last number from `lo` to `hi` with the property, which `lo` is expected to have. -/
def lastTrue (p : ℕ → Bool) (lo hi : ℕ) : ℕ :=
  if lo < hi then
    if p ((lo + hi + 1) / 2) then lastTrue p ((lo + hi + 1) / 2) hi
    else lastTrue p lo ((lo + hi + 1) / 2 - 1)
  else lo
termination_by hi - lo

variable {p : ℕ → Bool}

theorem lastTrue_mem (p : ℕ → Bool) {lo hi : ℕ} (h : lo ≤ hi) :
    lo ≤ lastTrue p lo hi ∧ lastTrue p lo hi ≤ hi := by
  fun_induction lastTrue p lo hi with
  | case1 lo hi hlt htrue ih =>
    have hmid := ih (by omega)
    omega
  | case2 lo hi hlt hfalse ih =>
    have hmid := ih (by omega)
    omega
  | case3 lo hi hle => exact ⟨le_rfl, h⟩

theorem lastTrue_true {lo hi : ℕ} (h : p lo = true) : p (lastTrue p lo hi) = true := by
  fun_induction lastTrue p lo hi with
  | case1 lo hi hlt htrue ih => exact ih htrue
  | case2 lo hi hlt hfalse ih => exact ih h
  | case3 lo hi hle => exact h

/-- **What the search finds**: no number beyond it has the property. -/
theorem lastTrue_spec (hp : ∀ m n, m ≤ n → p n = true → p m = true) {lo hi : ℕ} (h : lo ≤ hi) {k : ℕ}
    (hk : lastTrue p lo hi < k) (hle : k ≤ hi) : p k = false := by
  fun_induction lastTrue p lo hi with
  | case1 lo hi hlt htrue ih => exact ih (by omega) hk hle
  | case2 lo hi hlt hfalse ih =>
    by_cases hbelow : k ≤ (lo + hi + 1) / 2 - 1
    · exact ih (by omega) hk hbelow
    · by_contra htrue
      exact hfalse (hp _ k (by omega) (Bool.not_eq_false _ ▸ htrue))
  | case3 lo hi hge => omega

end Bisect
