import Mathlib.Data.Rat.Floor
import Mathlib.Data.Nat.Log
import Mathlib.Algebra.Order.Field.Power
import Mathlib.Tactic.Positivity

/-!
# Nonnegative single-precision arithmetic

The nonnegative part of the binary32 format: a finite value, infinity, or not-a-number.
A finite value is a rational number. Every operation computes the exact rational result and
rounds it once, to the nearest multiple of the quantum of its binade, ties to the even
multiple. The quantum of a value in the binade of `2 ^ e` is `2 ^ (e - 23)`, and never less
than `2 ^ (-149)`.

Programs that add, multiply and divide nonnegative numbers never leave this part of the
format, so there is no sign here. The comparisons are those of the format: not-a-number is
neither less than nor at most anything.

A natural number below `2 ^ 24` is a value of the format, so converting it rounds nothing
(`ofNat_eq_finite`).
-/

set_option autoImplicit false

namespace Quagga.Library

/-- A nonnegative binary32 datum. -/
inductive Binary32 where
  | nan
  | infinity
  | finite (value : ℚ)
  deriving DecidableEq

namespace Binary32

/-! ## Rounding -/

variable {n : ℕ}

/-- The exponent of the binade of a positive rational. -/
def binade (q : ℚ) : ℤ :=
  let estimate : ℤ := (Nat.log2 q.num.natAbs : ℤ) - (Nat.log2 q.den : ℤ)
  if q < (2 : ℚ) ^ estimate then estimate - 1 else estimate

/-- The distance between neighbouring values in the binade of a rational. -/
def quantum (q : ℚ) : ℚ := (2 : ℚ) ^ max (binade q - 23) (-149)

/-- The nearest integer, and the even one of two nearest integers. -/
def nearestEven (q : ℚ) : ℤ :=
  let below := ⌊q⌋
  let excess := q - below
  if excess < 1 / 2 then below
  else if 1 / 2 < excess then below + 1
  else if below % 2 = 0 then below else below + 1

/-- Round a nonnegative rational to the format. -/
def round (q : ℚ) : Binary32 :=
  let value := nearestEven (q / quantum q) * quantum q
  if 2 ^ 128 ≤ value then infinity else finite value

theorem nearestEven_intCast (n : ℤ) : nearestEven (n : ℚ) = n := by
  simp [nearestEven]

/-- Rounding keeps a multiple of its own quantum. -/
theorem round_eq_of_multiple {q : ℚ} {n : ℤ} (multiple : q / quantum q = n) (small : q < 2 ^ 128) :
    round q = finite q := by
  have positive : (quantum q) ≠ 0 := by
    unfold quantum
    positivity
  have back : (n : ℚ) * quantum q = q := by
    rw [← multiple, div_mul_cancel₀ q positive]
  unfold round
  simp only [multiple, nearestEven_intCast, back]
  rw [if_neg (not_le.mpr small)]

/-- The binade of a natural number below `2 ^ 24` is between the one below `1` and the one
of `2 ^ 23`. -/
theorem binade_natCast (small : n < 2 ^ 24) : -1 ≤ binade (n : ℚ) ∧ binade (n : ℚ) ≤ 23 := by
  have logBound : Nat.log2 n < 24 := by
    by_cases zero : n = 0
    · subst zero
      decide
    · exact (Nat.log2_lt zero).mpr small
  -- The estimate of the exponent is the binary logarithm.
  have estimate : (Nat.log2 (n : ℚ).num.natAbs : ℤ) - (Nat.log2 (n : ℚ).den : ℤ) = Nat.log2 n := by
    simp [show Nat.log2 1 = 0 by decide]
  unfold binade
  simp only [estimate]
  split <;> omega

/-- A natural number below `2 ^ 24` is a multiple of its quantum. -/
theorem natCast_multiple_quantum (small : n < 2 ^ 24) : ∃ m : ℤ, (n : ℚ) / quantum (n : ℚ) = m := by
  obtain ⟨lower, upper⟩ := binade_natCast small
  obtain ⟨k, exponent⟩ : ∃ k : ℕ, max (binade (n : ℚ) - 23) (-149) = -(k : ℤ) := by
    refine ⟨(23 - binade (n : ℚ)).toNat, ?_⟩
    omega
  refine ⟨n * 2 ^ k, ?_⟩
  unfold quantum
  rw [exponent, zpow_neg, div_inv_eq_mul]
  push_cast
  rfl

/-- **A natural number below `2 ^ 24` is a value of the format.** -/
theorem round_natCast (small : n < 2 ^ 24) : round (n : ℚ) = finite n := by
  obtain ⟨m, multiple⟩ := natCast_multiple_quantum small
  refine round_eq_of_multiple multiple ?_
  have : (n : ℚ) < 2 ^ 24 := by exact_mod_cast small
  calc (n : ℚ) < 2 ^ 24 := this
    _ ≤ 2 ^ 128 := by norm_num

/-! ## Operations -/

/-- Conversion of an unsigned integer. -/
def ofNat (n : ℕ) : Binary32 := round n

/-- Addition, rounded. -/
def add : Binary32 → Binary32 → Binary32
  | nan, _ => nan
  | _, nan => nan
  | infinity, _ => infinity
  | _, infinity => infinity
  | finite x, finite y => round (x + y)

/-- Multiplication, rounded. -/
def mul : Binary32 → Binary32 → Binary32
  | nan, _ => nan
  | _, nan => nan
  | infinity, infinity => infinity
  | infinity, finite y => if y = 0 then nan else infinity
  | finite x, infinity => if x = 0 then nan else infinity
  | finite x, finite y => round (x * y)

/-- Division; zero by zero and infinity by infinity have no value. -/
def div : Binary32 → Binary32 → Binary32
  | nan, _ => nan
  | _, nan => nan
  | infinity, infinity => nan
  | infinity, finite _ => infinity
  | finite _, infinity => finite 0
  | finite x, finite y => if y = 0 then (if x = 0 then nan else infinity) else round (x / y)

/-- The comparison `<` of the format. -/
def lt : Binary32 → Binary32 → Bool
  | finite x, finite y => decide (x < y)
  | finite _, infinity => true
  | _, _ => false

/-- The comparison `≤` of the format. -/
def le : Binary32 → Binary32 → Bool
  | finite x, finite y => decide (x ≤ y)
  | finite _, infinity => true
  | infinity, infinity => true
  | _, _ => false

@[simp] theorem nan_lt (x : Binary32) : nan.lt x = false := by cases x <;> rfl

@[simp] theorem lt_nan (x : Binary32) : x.lt nan = false := by cases x <;> rfl

@[simp] theorem nan_le (x : Binary32) : nan.le x = false := by cases x <;> rfl

@[simp] theorem le_nan (x : Binary32) : x.le nan = false := by cases x <;> rfl

theorem le_eq_not_lt {x y : Binary32} (number : x ≠ nan) (number' : y ≠ nan) :
    x.le y = !y.lt x := by
  cases x <;> cases y <;> simp_all [le, lt, ← not_le]

theorem lt_asymm {x y : Binary32} (less : x.lt y = true) : y.lt x = false := by
  cases x <;> cases y <;> simp_all [lt, le_of_lt]

theorem ofNat_eq_finite (small : n < 2 ^ 24) : ofNat n = finite n :=
  round_natCast small

theorem ofNat_lt_ofNat {m : ℕ} (smallM : m < 2 ^ 24) (smallN : n < 2 ^ 24) :
    (ofNat m).lt (ofNat n) = decide (m < n) := by
  rw [ofNat_eq_finite smallM, ofNat_eq_finite smallN]
  simp [lt]

end Binary32

end Quagga.Library
