import Mathlib.Algebra.Order.Ring.Nat

/-!
# Blocks of addresses

An address is a bit vector. A block is given by one of its addresses and the number of leading bits
that all its addresses have in common.

* `SameBlock len x y`: the addresses agree on their first `len` bits.
* **`sameBlock_iff_and_mask`**: by the network mask; **`sameBlock_iff_toNat`**: as numbers.
-/

namespace Blocks

variable {w : ℕ}

/-- The mask of the first `len` bits. -/
def mask (w len : ℕ) : BitVec w := BitVec.allOnes w <<< (w - len)

/-- The addresses agree on their first `len` bits. -/
def SameBlock (len : ℕ) (x y : BitVec w) : Prop := x >>> (w - len) = y >>> (w - len)

instance (len : ℕ) (x y : BitVec w) : Decidable (SameBlock len x y) :=
  inferInstanceAs (Decidable (_ = _))

theorem and_mask (x : BitVec w) (len : ℕ) : x &&& mask w len = (x >>> (w - len)) <<< (w - len) := by
  ext i hi
  unfold mask
  rw [BitVec.getElem_and, BitVec.getElem_shiftLeft, BitVec.getElem_shiftLeft]
  by_cases hlow : i < w - len
  · simp [hlow]
  · have hback : w - len + (i - (w - len)) = i := by omega
    simp [hlow, hback, hi]

theorem sameBlock_iff_toNat {len : ℕ} {x y : BitVec w} :
    SameBlock len x y ↔ x.toNat / 2 ^ (w - len) = y.toNat / 2 ^ (w - len) := by
  unfold SameBlock
  rw [← BitVec.toNat_inj, BitVec.toNat_ushiftRight, BitVec.toNat_ushiftRight,
    Nat.shiftRight_eq_div_pow, Nat.shiftRight_eq_div_pow]

theorem ushiftRight_shiftLeft_ushiftRight (x : BitVec w) (k : ℕ) :
    (x >>> k) <<< k >>> k = x >>> k := by
  ext i hi
  rw [BitVec.getElem_ushiftRight, BitVec.getElem_ushiftRight, BitVec.getLsbD_shiftLeft]
  by_cases hin : k + i < w
  · simp [hin]
  · simp [hin, BitVec.getLsbD_of_ge x _ (Nat.le_of_not_lt hin)]

/-- **The masked addresses are equal.** -/
theorem sameBlock_iff_and_mask {len : ℕ} {x y : BitVec w} :
    SameBlock len x y ↔ x &&& mask w len = y &&& mask w len := by
  rw [and_mask, and_mask]
  constructor
  · intro h
    unfold SameBlock at h
    rw [h]
  · intro h
    unfold SameBlock
    rw [← ushiftRight_shiftLeft_ushiftRight x, h, ushiftRight_shiftLeft_ushiftRight]

theorem and_eq_iff_sameBlock {len : ℕ} {m value : BitVec w} (hmask : m = mask w len)
    (hvalue : value &&& m = value) (x : BitVec w) : x &&& m = value ↔ SameBlock len x value := by
  rw [sameBlock_iff_and_mask, ← hmask, hvalue]

/-- The leading `v` bits of an address. -/
def lead (v : ℕ) (x : BitVec w) : BitVec v := (x >>> (w - v)).setWidth v

theorem toNat_lead {v : ℕ} (hv : v ≤ w) (x : BitVec w) :
    (lead v x).toNat = x.toNat / 2 ^ (w - v) := by
  unfold lead
  rw [BitVec.toNat_setWidth, BitVec.toNat_ushiftRight, Nat.shiftRight_eq_div_pow]
  refine Nat.mod_eq_of_lt (Nat.div_lt_of_lt_mul ?_)
  rw [← Nat.pow_add, Nat.sub_add_cancel hv]
  exact x.isLt

theorem sameBlock_lead {len v : ℕ} (hlen : len ≤ v) (hv : v ≤ w) {x y : BitVec w} :
    SameBlock len (lead v x) (lead v y) ↔ SameBlock len x y := by
  rw [sameBlock_iff_toNat, sameBlock_iff_toNat, toNat_lead hv, toNat_lead hv, Nat.div_div_eq_div_mul,
    Nat.div_div_eq_div_mul, ← Nat.pow_add, show w - v + (v - len) = w - len by omega]

end Blocks
