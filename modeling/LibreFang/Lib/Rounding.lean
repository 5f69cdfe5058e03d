import LibreFang.Lib.Floats
import Mathlib.Algebra.Order.Field.Power
import Mathlib.Tactic.Linarith
import Mathlib.Tactic.NormNum

/-!
# Rounding

How the nearest binary64 number lies to what is rounded, and the numbers of 32 bits.

* `rounded`: the value of the nearest number; `IsBinary`: a number that is its own nearest number.
* **`not_lt_nearest`**: what is not more than a number does not become more than it.
* **`one_lt_nearest_iff`**: what becomes more than one, and then by how much.
* **`lt_nearest_mul`**: a factor of more than one makes a normal number greater.
* **`isBinary_rounded`**: what is rounded to is a number; `F64.IsReal`.
-/

namespace Floats

/-! ## To the nearest integer -/

variable {q : ℚ} {k : ℤ}

theorem roundEven_le (h : q ≤ k) : roundEven q ≤ k := by
  have hfloor := Int.floor_le q
  have hle : ⌊q⌋ ≤ k := by exact_mod_cast hfloor.trans h
  unfold roundEven
  dsimp only
  rcases hle.lt_or_eq with hlt | heq
  · split
    · exact hle
    · split
      · exact hlt
      · omega
  · -- an integer is rounded to itself
    have hsame : q - ⌊q⌋ < 1 / 2 := by
      rw [heq]
      linarith
    rw [if_pos hsame]
    exact hle

theorem le_roundEven (h : (k : ℚ) ≤ q) : k ≤ roundEven q :=
  (Int.le_floor.mpr h).trans (floor_le_roundEven q)

theorem roundEven_half_le (heven : k % 2 = 0) (h : q ≤ k + 1 / 2) : roundEven q ≤ k := by
  rcases lt_or_ge q k with hlt | hge
  · exact roundEven_le hlt.le
  · have hfloor : ⌊q⌋ = k := Int.floor_eq_iff.mpr ⟨hge, by linarith⟩
    unfold roundEven
    dsimp only
    rw [hfloor]
    split
    · exact le_rfl
    · rw [if_neg (by linarith)]
      omega

theorem lt_roundEven (h : (k : ℚ) + 1 / 2 < q) : k < roundEven q := by
  rcases lt_or_ge q (k + 1) with hlt | hge
  · have hfloor : ⌊q⌋ = k := Int.floor_eq_iff.mpr ⟨by linarith, hlt⟩
    unfold roundEven
    dsimp only
    rw [hfloor, if_neg (by linarith), if_pos (by linarith)]
    exact Int.lt_succ k
  · have hk : ((k + 1 : ℤ) : ℚ) ≤ q := by
      push_cast
      exact hge
    exact le_roundEven hk

/-! ## To the nearest number -/

theorem ulp_pos (q : ℚ) : 0 < ulp q := zpow_pos (by norm_num) _

/-- The value of the nearest number. -/
def rounded (q : ℚ) : ℚ := roundEven (q / ulp q) * ulp q

theorem nearest_eq (q : ℚ) :
    nearest q = if |rounded q| < 2 ^ 1024 then .finite (rounded q)
      else .infinity (decide (q < 0)) := rfl

theorem rounded_le (h : q ≤ k * ulp q) : rounded q ≤ k * ulp q := by
  have hk : roundEven (q / ulp q) ≤ k := roundEven_le ((div_le_iff₀ (ulp_pos q)).mpr h)
  exact mul_le_mul_of_nonneg_right (by exact_mod_cast hk) (ulp_pos q).le

theorem le_rounded (h : k * ulp q ≤ q) : k * ulp q ≤ rounded q := by
  have hk : k ≤ roundEven (q / ulp q) := le_roundEven ((le_div_iff₀ (ulp_pos q)).mpr h)
  exact mul_le_mul_of_nonneg_right (by exact_mod_cast hk) (ulp_pos q).le

theorem rounded_nonneg (h : 0 ≤ q) : 0 ≤ rounded q := by
  have hzero := le_rounded (q := q) (k := 0) (by rw [Int.cast_zero, zero_mul]; exact h)
  rwa [Int.cast_zero, zero_mul] at hzero

theorem rounded_nonpos (h : q ≤ 0) : rounded q ≤ 0 := by
  have hzero := rounded_le (q := q) (k := 0) (by rw [Int.cast_zero, zero_mul]; exact h)
  rwa [Int.cast_zero, zero_mul] at hzero

/-- The number is its own nearest number. -/
def IsBinary (q : ℚ) : Prop := nearest q = .finite q

instance (q : ℚ) : Decidable (IsBinary q) := inferInstanceAs (Decidable (_ = _))

theorem IsBinary.rounded_eq (h : IsBinary q) : rounded q = q ∧ |q| < 2 ^ 1024 := by
  unfold IsBinary at h
  rw [nearest_eq] at h
  split at h
  · next hlt =>
    have heq := F64.finite.inj h
    rw [heq] at hlt
    exact ⟨heq, hlt⟩
  · cases h

theorem exists_ulp_eq {p q : ℚ} (hp : 0 < p) (h : p ≤ q) : ∃ n : ℕ, ulp q = 2 ^ n * ulp p := by
  have hlog : Int.log 2 |p| ≤ Int.log 2 |q| := by
    rw [abs_of_pos hp, abs_of_pos (hp.trans_le h)]
    exact Int.log_mono_right hp h
  have hexp : max (Int.log 2 |p| - 52) (-1074) ≤ max (Int.log 2 |q| - 52) (-1074) := by omega
  obtain ⟨n, hn⟩ := Int.le.dest hexp
  refine ⟨n, ?_⟩
  unfold ulp
  rw [← hn, zpow_add₀ (by norm_num), zpow_natCast, mul_comm]

/-- **What is not more than a number** does not become more than it. -/
theorem not_lt_nearest {p c : ℚ} (hc : IsBinary c) (hpos : 0 < c) (h : p ≤ c) :
    (F64.finite c).lt (nearest p) = false := by
  obtain ⟨hrounded, hbound⟩ := hc.rounded_eq
  have hle : rounded p ≤ c := by
    rcases le_or_gt p 0 with hp | hp
    · exact (rounded_nonpos hp).trans hpos.le
    · -- the number is a multiple of the distance around what is rounded
      obtain ⟨n, hn⟩ := exists_ulp_eq hp h
      have hmultiple : c = ((roundEven (c / ulp c) * 2 ^ n : ℤ) : ℚ) * ulp p := by
        push_cast
        rw [mul_assoc, ← hn]
        exact hrounded.symm
      rw [hmultiple] at h ⊢
      exact rounded_le h
  rw [nearest_eq]
  split
  · exact decide_eq_false (not_lt.mpr hle)
  · next hlarge =>
    have hneg : p < 0 := by
      by_contra hp
      have hnonneg := rounded_nonneg (not_lt.mp hp)
      rw [abs_of_nonneg hnonneg] at hlarge
      rw [abs_of_pos hpos] at hbound
      exact hlarge (hle.trans_lt hbound)
    rw [decide_eq_true hneg]
    rfl

/-! ## Greater than a number -/

theorem zpow_log_le_rounded {p : ℚ} (hp : 0 < p) (hnormal : -1022 ≤ Int.log 2 p) :
    2 ^ Int.log 2 p ≤ rounded p := by
  have hpow : ((2 ^ 52 : ℤ) : ℚ) * ulp p = 2 ^ Int.log 2 p := by
    unfold ulp
    rw [abs_of_pos hp, max_eq_left (by omega), zpow_sub₀ (by norm_num)]
    push_cast
    exact mul_div_cancel₀ _ (by norm_num)
  rw [← hpow]
  refine le_rounded ?_
  rw [hpow]
  exact Int.zpow_log_le_self (by norm_num) hp

theorem lt_nearest {p c : ℚ} (hp : 0 ≤ p) (h : c < rounded p) :
    (F64.finite c).lt (nearest p) = true := by
  rw [nearest_eq]
  split
  · exact decide_eq_true h
  · rw [decide_eq_false (not_lt.mpr hp)]
    rfl

theorem lt_rounded_of_ulp {p c : ℚ} (hc : 0 < c) (hnormal : -1022 ≤ Int.log 2 c)
    (h : c + ulp c ≤ p) : c < rounded p := by
  have hcp : c < p := lt_of_lt_of_le (lt_add_of_pos_right c (ulp_pos c)) h
  have hp : 0 < p := hc.trans hcp
  have hlog : Int.log 2 c ≤ Int.log 2 p := Int.log_mono_right hc hcp.le
  rcases hlog.lt_or_eq with hlt | heq
  · -- there is a power of two between them
    calc c < 2 ^ (Int.log 2 c + 1) := Int.lt_zpow_succ_log_self (by norm_num) c
      _ ≤ 2 ^ Int.log 2 p := zpow_le_zpow_right₀ (by norm_num) hlt
      _ ≤ rounded p := zpow_log_le_rounded hp (hnormal.trans hlog)
  · have hulp : ulp p = ulp c := by
      unfold ulp
      rw [abs_of_pos hp, abs_of_pos hc, heq]
    have hfloor := Int.lt_floor_add_one (c / ulp c)
    have hle : ((⌊c / ulp c⌋ + 1 : ℤ) : ℚ) * ulp p ≤ p := by
      have hdown := Int.floor_le (c / ulp c)
      rw [le_div_iff₀ (ulp_pos c)] at hdown
      push_cast
      rw [hulp, add_mul, one_mul]
      linarith
    refine lt_of_lt_of_le ?_ (le_rounded hle)
    rw [hulp]
    push_cast
    exact (div_lt_iff₀ (ulp_pos c)).mp hfloor

theorem one_lt_bound : (1 : ℚ) < 2 ^ 1024 := one_lt_pow₀ (by norm_num) (by decide)

/-- The least binary64 number after one. -/
def afterOne : ℚ := 1 + 2 ^ (-52 : ℤ)

theorem ulp_of_lt_two {p : ℚ} (hone : 1 ≤ p) (htwo : p < 2) : ulp p = 2 ^ (-52 : ℤ) := by
  have hpos : 0 < p := zero_lt_one.trans_le hone
  have hfloor : ⌊p⌋₊ = 1 := (Nat.floor_eq_iff hpos.le).mpr ⟨by exact_mod_cast hone, by
    push_cast
    linarith⟩
  have hlog : Int.log 2 p = 0 := by
    rw [Int.log_of_one_le_right 2 hone, hfloor]
    rfl
  unfold ulp
  rw [abs_of_pos hpos, hlog]
  norm_num

theorem isBinary_one : IsBinary 1 := by
  have hulp := ulp_of_lt_two (p := 1) le_rfl (by norm_num)
  have hrounded : rounded 1 = 1 := by
    unfold rounded
    rw [hulp]
    norm_num [roundEven]
  unfold IsBinary
  rw [nearest_eq, hrounded, abs_one, if_pos one_lt_bound]

theorem afterOne_le_rounded {p : ℚ} (h : 1 + 2 ^ (-53 : ℤ) < p) : afterOne ≤ rounded p := by
  have hone : 1 ≤ p := by
    have : (0 : ℚ) < 2 ^ (-53 : ℤ) := zpow_pos (by norm_num) _
    linarith
  have hpos : 0 < p := zero_lt_one.trans_le hone
  rcases lt_or_ge p 2 with htwo | htwo
  · have hulp := ulp_of_lt_two hone htwo
    have hround : (2 ^ 52 : ℤ) < roundEven (p / ulp p) := by
      refine lt_roundEven ?_
      rw [hulp, lt_div_iff₀ (zpow_pos (by norm_num) _)]
      refine lt_of_eq_of_lt ?_ h
      norm_num
    have hle : ((2 ^ 52 + 1 : ℤ) : ℚ) ≤ roundEven (p / ulp p) := by exact_mod_cast hround
    have hmul := mul_le_mul_of_nonneg_right hle (ulp_pos p).le
    refine le_of_eq_of_le ?_ hmul
    unfold afterOne
    rw [hulp]
    norm_num
  · have hlog : 1 ≤ Int.log 2 p := (Int.zpow_le_iff_le_log (by norm_num) hpos).mp (by
      rw [Nat.cast_ofNat, zpow_one]
      exact htwo)
    calc afterOne ≤ 2 ^ (1 : ℤ) := by unfold afterOne; norm_num
      _ ≤ 2 ^ Int.log 2 p := zpow_le_zpow_right₀ (by norm_num) hlog
      _ ≤ rounded p := zpow_log_le_rounded hpos (by omega)

/-- **What becomes more than one.** -/
theorem one_lt_nearest_iff {p : ℚ} :
    (F64.finite 1).lt (nearest p) = true ↔ 1 + 2 ^ (-53 : ℤ) < p := by
  constructor
  · intro h
    by_contra hle
    rcases le_or_gt p 1 with hone | hone
    · rw [not_lt_nearest isBinary_one zero_lt_one hone] at h
      cases h
    · have htwo : p < 2 := (not_lt.mp hle).trans_lt (by norm_num)
      have hulp := ulp_of_lt_two hone.le htwo
      have hround : roundEven (p / ulp p) ≤ 2 ^ 52 := by
        refine roundEven_half_le (by norm_num) ?_
        rw [hulp, div_le_iff₀ (zpow_pos (by norm_num) _)]
        refine (not_lt.mp hle).trans_eq ?_
        norm_num
      have hrounded : rounded p ≤ 1 := by
        have hcast : (roundEven (p / ulp p) : ℚ) ≤ 2 ^ 52 := by exact_mod_cast hround
        refine (mul_le_mul_of_nonneg_right hcast (ulp_pos p).le).trans_eq ?_
        rw [hulp]
        norm_num
      rw [nearest_eq, if_pos] at h
      · exact absurd (of_decide_eq_true h) (not_lt.mpr hrounded)
      · rw [abs_of_nonneg (rounded_nonneg (zero_le_one.trans hone.le))]
        exact hrounded.trans_lt one_lt_bound
  · intro h
    have hone : 1 ≤ p := by
      have : (0 : ℚ) < 2 ^ (-53 : ℤ) := zpow_pos (by norm_num) _
      linarith
    refine lt_nearest (zero_le_one.trans hone) (lt_of_lt_of_le ?_ (afterOne_le_rounded h))
    unfold afterOne
    norm_num

/-- **A factor of more than one** makes a normal number greater. -/
theorem lt_nearest_mul {c f : ℚ} (hc : 0 < c) (hnormal : -1022 ≤ Int.log 2 c)
    (hf : afterOne ≤ f) : (F64.finite c).lt (nearest (c * f)) = true := by
  have hulp : ulp c ≤ c * 2 ^ (-52 : ℤ) := by
    unfold ulp
    rw [abs_of_pos hc, max_eq_left (by omega), sub_eq_add_neg, zpow_add₀ (by norm_num)]
    exact mul_le_mul_of_nonneg_right (Int.zpow_log_le_self (by norm_num) hc)
      (zpow_pos (by norm_num) _).le
  have hmul : c + ulp c ≤ c * f := by
    have hle := mul_le_mul_of_nonneg_left hf hc.le
    unfold afterOne at hle
    linarith
  exact lt_nearest (hc.le.trans ((le_add_of_nonneg_right (ulp_pos c).le).trans hmul))
    (lt_rounded_of_ulp hc hnormal hmul)

/-! ## Numbers that are rounded to are numbers -/

theorem isBinary_of_eq_mul {r : ℚ} (hr : r = k * ulp r) (hlt : |r| < 2 ^ 1024) : IsBinary r := by
  have hround : roundEven (r / ulp r) = k := by
    have hdiv : r / ulp r = k := (div_eq_iff (ulp_pos r).ne').mpr hr
    exact le_antisymm (roundEven_le hdiv.le) (le_roundEven hdiv.ge)
  have hrounded : rounded r = r := by
    unfold rounded
    rw [hround]
    exact hr.symm
  unfold IsBinary
  rw [nearest_eq, hrounded, if_pos hlt]

theorem abs_roundEven_le (q : ℚ) : |roundEven (q / ulp q)| ≤ 2 ^ 53 := by
  have hbound : |q| ≤ 2 ^ 53 * ulp q :=
    calc |q| ≤ 2 ^ (Int.log 2 |q| + 1) := (Int.lt_zpow_succ_log_self (by norm_num) _).le
      _ = 2 ^ (53 : ℤ) * 2 ^ (Int.log 2 |q| - 52) := by
        rw [← zpow_add₀ (by norm_num)]
        congr 1
        omega
      _ ≤ 2 ^ (53 : ℤ) * ulp q := mul_le_mul_of_nonneg_left
        (zpow_le_zpow_right₀ (by norm_num) (le_max_left _ _)) (by norm_num)
      _ = 2 ^ 53 * ulp q := by norm_num
  obtain ⟨hlow, hhigh⟩ := abs_le.mp hbound
  refine abs_le.mpr ⟨le_roundEven ?_, roundEven_le ?_⟩
  · rw [le_div_iff₀ (ulp_pos q)]
    push_cast
    linarith
  · rw [div_le_iff₀ (ulp_pos q)]
    push_cast
    exact hhigh

theorem exists_rounded_eq_mul (q : ℚ) : ∃ k : ℤ, rounded q = k * ulp (rounded q) := by
  have hle := abs_roundEven_le q
  have hdef : rounded q = roundEven (q / ulp q) * ulp q := rfl
  generalize rounded q = r at hdef ⊢
  generalize roundEven (q / ulp q) = k at hle hdef
  by_cases hk : k = 0
  · refine ⟨0, ?_⟩
    rw [hdef, hk, Int.cast_zero, zero_mul, zero_mul]
  have hrpos : 0 < |r| := by
    rw [hdef]
    exact abs_pos.mpr (mul_ne_zero (Int.cast_ne_zero.mpr hk) (ulp_pos q).ne')
  have hulp : ulp q = 2 ^ max (Int.log 2 |q| - 52) (-1074) := rfl
  have hmin : -1074 ≤ max (Int.log 2 |q| - 52) (-1074) := le_max_right _ _
  generalize max (Int.log 2 |q| - 52) (-1074) = e at hulp hmin
  have habs : |r| = |k| * 2 ^ e := by
    rw [hdef, hulp, abs_mul, abs_of_pos (zpow_pos (by norm_num : (0 : ℚ) < 2) e)]
    push_cast
    rfl
  have hpow : (2 : ℚ) ^ (53 : ℤ) * 2 ^ e = 2 ^ (53 + e) := (zpow_add₀ (by norm_num) _ _).symm
  rcases hle.lt_or_eq with hlt | heq
  · have hlog : Int.log 2 |r| < 53 + e := by
      refine (Int.lt_zpow_iff_log_lt (by norm_num) hrpos).mp ?_
      have hcast : ((|k| : ℤ) : ℚ) < 2 ^ (53 : ℤ) := by
        rw [zpow_ofNat]
        exact_mod_cast hlt
      have hmul := mul_lt_mul_of_pos_right hcast (zpow_pos (by norm_num : (0 : ℚ) < 2) e)
      rw [hpow] at hmul
      rw [habs]
      exact_mod_cast hmul
    obtain ⟨n, hn⟩ := Int.le.dest (show max (Int.log 2 |r| - 52) (-1074) ≤ e by omega)
    have hr : ulp r * 2 ^ n = 2 ^ e := by
      unfold ulp
      rw [← zpow_natCast, ← zpow_add₀ (by norm_num), hn]
    refine ⟨k * 2 ^ n, ?_⟩
    push_cast
    rw [mul_assoc, mul_comm (2 ^ n : ℚ), hr, hdef, hulp]
  · -- the next power of two
    have hr : |r| = 2 ^ (53 + e) := by
      rw [habs, ← hpow, heq]
      norm_num
    have hlog : Int.log 2 |r| = 53 + e := by
      rw [hr]
      exact_mod_cast Int.log_zpow (R := ℚ) (by norm_num) (53 + e)
    have hnext : ulp r = 2 * 2 ^ e := by
      unfold ulp
      rw [hlog, max_eq_left (by omega), ← zpow_one_add₀ (by norm_num)]
      congr 1
      omega
    have heven : k = k / 2 * 2 := by
      rcases abs_choice k with h | h
      · omega
      · omega
    refine ⟨k / 2, ?_⟩
    rw [hnext, ← mul_assoc, hdef, hulp]
    congr 1
    exact_mod_cast heven

/-- **What is rounded to is a number.** -/
theorem isBinary_rounded (h : |rounded q| < 2 ^ 1024) : IsBinary (rounded q) := by
  obtain ⟨k, hk⟩ := exists_rounded_eq_mul q
  exact isBinary_of_eq_mul hk h

/-- A number of 64 bits or an infinity. -/
def F64.IsReal : F64 → Prop
  | nan => False
  | infinity _ => True
  | finite q => IsBinary q

theorem isReal_nearest (q : ℚ) : (nearest q).IsReal := by
  rw [nearest_eq]
  split
  · next h => exact isBinary_rounded h
  · trivial

theorem isReal_mul {a b : F64} (h : a.mul b ≠ .nan) : (a.mul b).IsReal := by
  cases a with
  | nan => exact absurd rfl h
  | infinity s =>
    cases b with
    | nan => exact absurd rfl h
    | infinity t => trivial
    | finite q =>
      unfold F64.mul at h ⊢
      dsimp only at h ⊢
      split
      · next hq => exact absurd (if_pos hq) h
      · trivial
  | finite p =>
    cases b with
    | nan => exact absurd rfl h
    | infinity t =>
      unfold F64.mul at h ⊢
      dsimp only at h ⊢
      split
      · next hp => exact absurd (if_pos hp) h
      · trivial
    | finite q => exact isReal_nearest (p * q)

/-! ## One minus a rate -/

namespace F64

theorem lt_irrefl (a : F64) : a.lt a = false := by
  cases a with
  | nan => rfl
  | infinity s => exact Bool.and_not_self s
  | finite q => exact decide_eq_false (Std.lt_irrefl (a := q))

theorem lt_asymm {a b : F64} (h : a.lt b = true) : b.lt a = false := by
  cases a with
  | nan => cases h
  | infinity s =>
    cases b with
    | nan => cases h
    | infinity t => cases s <;> cases t <;> first | rfl | cases h
    | finite q =>
      unfold lt at h ⊢
      dsimp only at h ⊢
      rw [h]
      rfl
  | finite p =>
    cases b with
    | nan => cases h
    | infinity t =>
      unfold lt at h ⊢
      dsimp only at h ⊢
      rwa [Bool.not_eq_true'] at h
    | finite q => exact decide_eq_false (not_lt.mpr (of_decide_eq_true h).le)

theorem lt_or_lt {a b c : F64} (hb : b.IsReal) (h : a.lt c = true) :
    a.lt b = true ∨ b.lt c = true := by
  cases b with
  | nan => cases hb
  | infinity s =>
    cases s with
    | false =>
      left
      cases a with
      | nan => cases h
      | infinity t =>
        cases t with
        | false => cases c <;> cases h
        | true => rfl
      | finite q => rfl
    | true =>
      right
      cases c with
      | nan => cases a <;> cases h
      | infinity t =>
        cases t with
        | false => rfl
        | true => cases a with
          | nan => cases h
          | infinity u => cases u <;> cases h
          | finite q => cases h
      | finite q => rfl
  | finite b =>
    cases a with
    | nan => cases h
    | infinity s =>
      left
      cases s with
      | false => cases c <;> cases h
      | true => rfl
    | finite a =>
      cases c with
      | nan => cases h
      | infinity t => exact .inr h
      | finite c =>
        have hac : a < c := of_decide_eq_true h
        rcases lt_or_ge a b with hab | hba
        · exact .inl (decide_eq_true hab)
        · exact .inr (decide_eq_true (hba.trans_lt hac))

theorem finite_mul_infinity (h : 0 < q) (s : Bool) : (finite q).mul (infinity s) = infinity s := by
  change (if q = 0 then nan else infinity (s != decide (q < 0))) = infinity s
  rw [if_neg h.ne', decide_eq_false (not_lt.mpr h.le), Bool.bne_false]

theorem infinity_mul_finite (h : 0 < q) (s : Bool) :
    (infinity s).mul (finite q) = infinity s := finite_mul_infinity h s

theorem one_lt_one_sub_iff (r : F64) : (finite 1).lt ((finite 1).sub r) = true ↔
    r.lt (finite (-2 ^ (-53 : ℤ))) = true := by
  cases r with
  | nan => exact Iff.rfl
  | infinity s => cases s <;> exact Iff.rfl
  | finite q =>
    refine one_lt_nearest_iff.trans ?_
    unfold lt
    rw [decide_eq_true_iff]
    constructor
    · intro h
      linarith
    · intro h
      linarith

theorem not_lt_mul_one_sub {r : F64} (hq : IsBinary q) (hpos : 0 < q)
    (h : r.lt (finite (-2 ^ (-53 : ℤ))) = false) :
    (finite q).lt ((finite q).mul ((finite 1).sub r)) = false := by
  have hone : (finite 1).lt ((finite 1).sub r) = false := by
    rw [← Bool.not_eq_true, one_lt_one_sub_iff, Bool.not_eq_true]
    exact h
  generalize (finite 1).sub r = f at hone
  cases f with
  | nan => rfl
  | infinity s =>
    have hs : s = true := by
      unfold lt at hone
      rwa [Bool.not_eq_false'] at hone
    rw [hs, finite_mul_infinity hpos]
    rfl
  | finite f =>
    have hf : f ≤ 1 := not_lt.mp (of_decide_eq_false hone)
    exact not_lt_nearest hq hpos (mul_le_of_le_one_right hpos.le hf)

theorem lt_mul_one_sub {r : F64} (hpos : 0 < q) (hnormal : -1022 ≤ Int.log 2 q)
    (h : r.lt (finite (-2 ^ (-53 : ℤ))) = true) :
    (finite q).lt ((finite q).mul ((finite 1).sub r)) = true := by
  have hinfinite : (finite q).lt ((finite q).mul (infinity false)) = true := by
    rw [finite_mul_infinity hpos]
    rfl
  cases r with
  | nan => cases h
  | infinity s =>
    have hs : s = true := h
    subst hs
    exact hinfinite
  | finite p =>
    have hp : p < -2 ^ (-53 : ℤ) := of_decide_eq_true h
    have hsub : (finite 1).sub (finite p) = nearest (1 + -p) := rfl
    rw [hsub, nearest_eq]
    split
    · exact lt_nearest_mul hpos hnormal (afterOne_le_rounded (by linarith))
    · have hneg : ¬ 1 + -p < 0 := by
        have : (0 : ℚ) < 2 ^ (-53 : ℤ) := zpow_pos (by norm_num) _
        linarith
      rw [decide_eq_false hneg]
      exact hinfinite

theorem infinity_mul_one_sub {r : F64} (h : r.lt (finite (-2 ^ (-53 : ℤ))) = true) :
    (infinity false).mul ((finite 1).sub r) = infinity false := by
  have hone := (one_lt_one_sub_iff r).mpr h
  generalize (finite 1).sub r = f at hone
  cases f with
  | nan => cases hone
  | infinity s =>
    have hs : s = false := by
      unfold lt at hone
      rwa [Bool.not_eq_true'] at hone
    subst hs
    rfl
  | finite f =>
    exact infinity_mul_finite (zero_lt_one.trans (of_decide_eq_true hone)) false

end F64

/-- The nearest binary32 number, below the range where it is infinite. -/
def single (q : ℚ) : ℚ :=
  let ulp : ℚ := 2 ^ max (Int.log 2 |q| - 23) (-149)
  roundEven (q / ulp) * ulp

end Floats
