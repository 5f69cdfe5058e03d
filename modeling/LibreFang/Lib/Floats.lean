import Mathlib.Data.Int.Log
import Mathlib.Data.Nat.Digits.Defs
import Mathlib.Data.Rat.Floor

/-!
# Binary floating-point numbers

Numbers of 64 bits as the rational numbers that they stand for. A zero has no sign here.

* `nearest`: the nearest number, the even one of two; `add`, `sub`, `mul`, `max`, `lt`: what is
  computed is rounded once.
* `toU64`: the cast to a natural number, which saturates.
* `parse`: a number from a decimal text.
-/

namespace Floats

/-- A binary64 number. -/
inductive F64
  | nan
  | infinity (negative : Bool)
  | finite (q : ℚ)
  deriving DecidableEq

/-! ## Rounding -/

/-- The nearest integer, the even one of two. -/
def roundEven (q : ℚ) : ℤ :=
  let k := ⌊q⌋
  if q - k < 1 / 2 then k
  else if 1 / 2 < q - k then k + 1
  else k + k % 2

theorem floor_le_roundEven (q : ℚ) : ⌊q⌋ ≤ roundEven q := by
  unfold roundEven
  dsimp only
  split
  · exact le_rfl
  · split
    · omega
    · omega

/-- The distance of the numbers around a rational number. -/
def ulp (q : ℚ) : ℚ := 2 ^ max (Int.log 2 |q| - 52) (-1074)

/-- The nearest number. -/
def nearest (q : ℚ) : F64 :=
  let r := roundEven (q / ulp q) * ulp q
  if |r| < 2 ^ 1024 then .finite r else .infinity (decide (q < 0))

namespace F64

/-! ## Arithmetic -/

/-- `-a`. -/
def neg : F64 → F64
  | nan => nan
  | infinity s => infinity !s
  | finite q => finite (-q)

/-- `a + b`. -/
def add : F64 → F64 → F64
  | nan, _ | _, nan => nan
  | infinity s, infinity t => if s = t then infinity s else nan
  | infinity s, finite _ | finite _, infinity s => infinity s
  | finite a, finite b => nearest (a + b)

/-- `a - b`. -/
def sub (a b : F64) : F64 := a.add b.neg

/-- `a * b`. -/
def mul : F64 → F64 → F64
  | nan, _ | _, nan => nan
  | infinity s, infinity t => infinity (s != t)
  | infinity s, finite q | finite q, infinity s =>
    if q = 0 then nan else infinity (s != decide (q < 0))
  | finite a, finite b => nearest (a * b)

/-- `a < b`: false on a NaN. -/
def lt : F64 → F64 → Bool
  | nan, _ | _, nan => false
  | infinity s, infinity t => s && !t
  | infinity s, finite _ => s
  | finite _, infinity s => !s
  | finite a, finite b => decide (a < b)

/-- `f64::max`: a NaN is left out. -/
def max (a b : F64) : F64 :=
  if a = nan then b else if a.lt b then b else a

/-- `a as u64`, which saturates. -/
def toU64 : F64 → ℕ
  | nan => 0
  | infinity negative => if negative then 0 else 2 ^ 64 - 1
  | finite q => min ⌊q⌋₊ (2 ^ 64 - 1)

theorem zero_lt {a : F64} (h : (finite 0).lt a = true) :
    a = infinity false ∨ ∃ q, a = finite q ∧ 0 < q := by
  cases a with
  | nan => cases h
  | infinity s =>
    cases s with
    | false => exact .inl rfl
    | true => cases h
  | finite q => exact .inr ⟨q, rfl, of_decide_eq_true h⟩

end F64

/-! ## Texts -/

/-- A sign, and what is behind it. -/
def sign : List Char → Bool × List Char
  | '-' :: s => (true, s)
  | '+' :: s => (false, s)
  | s => (false, s)

/-- Digits, at least one. -/
def digits (s : List Char) : Option ℕ :=
  if s ≠ [] ∧ s.all Char.isDigit then some (Nat.ofDigitChars 10 s 0) else none

/-- The exponent of a decimal number. -/
def exponent : List Char → Option ℤ
  | [] => some 0
  | c :: s =>
    if c = 'e' ∨ c = 'E' then
      (digits (sign s).2).map fun (n : ℕ) => if (sign s).1 then -(n : ℤ) else n
    else none

/-- A decimal number without a sign. -/
def decimal (s : List Char) : Option ℚ :=
  let whole := s.takeWhile Char.isDigit
  let rest := s.dropWhile Char.isDigit
  let fraction := if rest.head? = some '.' then rest.tail.takeWhile Char.isDigit else []
  let rest := if rest.head? = some '.' then rest.tail.dropWhile Char.isDigit else rest
  if whole = [] ∧ fraction = [] then none
  else (exponent rest).map fun e =>
    (Nat.ofDigitChars 10 (whole ++ fraction) 0 : ℚ) * 10 ^ (e - (fraction.length : ℤ))

/-- `f64::from_str`. -/
def parse (s : List Char) : Option F64 :=
  let rest := (sign s).2
  let word := rest.map Char.toLower
  match decimal rest with
  | some q => some (nearest (if (sign s).1 then -q else q))
  | none =>
    if word = "inf".toList ∨ word = "infinity".toList then some (.infinity (sign s).1)
    else if word = "nan".toList then some .nan
    else none

theorem length_sign_le (s : List Char) : (sign s).2.length ≤ s.length := by
  unfold sign
  split
  · exact Nat.le_succ _
  · exact Nat.le_succ _
  · exact le_rfl

theorem ofDigitChars_lt {s : List Char} (hdigits : ∀ c ∈ s, c.isDigit = true) (acc : ℕ) :
    Nat.ofDigitChars 10 s acc < (acc + 1) * 10 ^ s.length := by
  induction s generalizing acc with
  | nil =>
    rw [Nat.ofDigitChars_nil, List.length_nil, Nat.pow_zero, Nat.mul_one]
    exact Nat.lt_succ_self _
  | cons c s ih =>
    obtain ⟨hc, hs⟩ := List.forall_mem_cons.mp hdigits
    have hdigit : c.toNat - '0'.toNat < 10 := by
      have hle : c.toNat ≤ 57 := (Char.isDigit_iff_toNat.mp hc).2
      exact lt_of_le_of_lt (Nat.sub_le_sub_right hle 48) (by omega)
    rw [Nat.ofDigitChars_cons, List.length_cons, Nat.pow_succ']
    calc Nat.ofDigitChars 10 s (10 * acc + (c.toNat - '0'.toNat))
        < (10 * acc + (c.toNat - '0'.toNat) + 1) * 10 ^ s.length := ih hs _
      _ ≤ ((acc + 1) * 10) * 10 ^ s.length := Nat.mul_le_mul_right _ (by omega)
      _ = (acc + 1) * (10 * 10 ^ s.length) := Nat.mul_assoc _ _ _

theorem digits_lt {s : List Char} {n : ℕ} (h : digits s = some n) : n < 10 ^ s.length := by
  unfold digits at h
  split at h
  · rename_i hall
    have hlt := ofDigitChars_lt (List.all_eq_true.mp hall.2) 0
    rw [Nat.zero_add, Nat.one_mul] at hlt
    rwa [← Option.some.inj h]
  · cases h

/-- The number is an `i64`. -/
def IsI64 (x : ℤ) : Prop := -9223372036854775808 ≤ x ∧ x < 9223372036854775808

instance (x : ℤ) : Decidable (IsI64 x) := inferInstanceAs (Decidable (_ ∧ _))

/-- An `i64`. -/
abbrev I64 := {x : ℤ // IsI64 x}

/-- `i64::from_str`. -/
def parseI64 (s : List Char) : Option I64 :=
  ((digits (sign s).2).map fun (n : ℕ) => if (sign s).1 then -(n : ℤ) else n).bind fun x =>
    if h : IsI64 x then some ⟨x, h⟩ else none

theorem parseI64_bounds {s : List Char} {x : I64} (h : parseI64 s = some x) :
    -10 ^ s.length < x.1 ∧ x.1 < 10 ^ s.length := by
  unfold parseI64 at h
  obtain ⟨y, hy, hx⟩ := Option.bind_eq_some_iff.mp h
  obtain ⟨n, hn, hsign⟩ := Option.map_eq_some_iff.mp hy
  have hlt : n < 10 ^ s.length :=
    lt_of_lt_of_le (digits_lt hn) (Nat.pow_le_pow_right (by omega) (length_sign_le s))
  have hcast : (n : ℤ) < 10 ^ s.length := by exact_mod_cast hlt
  generalize (10 : ℤ) ^ s.length = bound at hcast ⊢
  obtain ⟨hfits, hsome⟩ := Option.dite_none_right_eq_some.mp hx
  rw [← Option.some.inj hsome]
  dsimp only
  split at hsign
  · omega
  · omega

end Floats
