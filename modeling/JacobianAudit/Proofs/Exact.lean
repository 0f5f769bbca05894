/-
**Exact arithmetic.**

The algorithms of the library are written over an abstract type of scalars. Read with rational
numbers they are free of round-off, which is how one tells an error of the method from one of the
arithmetic. Rational numbers lack a few of the operations; nothing is assumed about what stands in
their place.

Main definitions:

* `JacobianAudit.Exact` — rational numbers as scalars;
* `JacobianAudit.Inexact` — the operations that rational numbers lack;
* `JacobianAudit.Exact.reading` — their reading in the field of rational numbers.

Main results:

* `JacobianAudit.Exact.value_larger`, `JacobianAudit.Exact.value_dot`,
  `JacobianAudit.Exact.relativeError_le_iff` — what the library's operations compute;
* `JacobianAudit.Exact.reading_ordered` — rational numbers are read as themselves;
* `JacobianAudit.Exact.stepSize_pos` — the step is never zero.
-/

import Mathlib.Algebra.Order.Field.Rat
import JacobianAudit.Proofs.Fields

set_option autoImplicit false

namespace JacobianAudit

/-- A rational number as a scalar. -/
@[ext]
structure Exact where
  value : ℚ

/-- The operations that rational numbers lack, and how a number is shown. -/
class Inexact where
  sqrt : ℚ → ℚ
  sin : ℚ → ℚ
  cos : ℚ → ℚ
  text : ℚ → String

namespace Exact

variable [Inexact]

instance : Scalar Exact where
  add x y := ⟨x.value + y.value⟩
  sub x y := ⟨x.value - y.value⟩
  mul x y := ⟨x.value * y.value⟩
  div x y := ⟨x.value / y.value⟩
  neg x := ⟨-x.value⟩
  zero := ⟨0⟩
  one := ⟨1⟩
  nan := ⟨0⟩
  abs x := ⟨|x.value|⟩
  le x y := decide (x.value ≤ y.value)
  isFinite _ := true
  sqrt x := ⟨Inexact.sqrt x.value⟩
  sin x := ⟨Inexact.sin x.value⟩
  cos x := ⟨Inexact.cos x.value⟩
  power x n := if x.value = 0 ∧ n < 0 then .error .zeroDivision else .ok ⟨x.value ^ n⟩
  quantity x := .finite (x.value < 0) x.value.num.natAbs x.value.den
  text x := Inexact.text x.value

/-! ### What the operations compute -/

section Values

variable (x y : Exact)

@[simp] theorem value_add : (x + y).value = x.value + y.value := rfl

@[simp] theorem value_sub : (x - y).value = x.value - y.value := rfl

@[simp] theorem value_mul : (x * y).value = x.value * y.value := rfl

@[simp] theorem value_div : (x / y).value = x.value / y.value := rfl

@[simp] theorem value_neg : (-x).value = -x.value := rfl

@[simp] theorem value_zero : (Scalar.zero : Exact).value = 0 := rfl

@[simp] theorem value_one : (Scalar.one : Exact).value = 1 := rfl

@[simp] theorem value_two : (Scalar.two : Exact).value = 2 := one_add_one_eq_two

@[simp] theorem value_half : (Scalar.half : Exact).value = 1 / 2 := by simp [Scalar.half]

@[simp] theorem value_abs : (Scalar.abs x).value = |x.value| := rfl

@[simp] theorem le_eq_decide : Scalar.le x y = decide (x.value ≤ y.value) := rfl

theorem le_iff : Scalar.le x y = true ↔ x.value ≤ y.value := decide_eq_true_iff

theorem lt_iff : Scalar.lt x y = true ↔ x.value < y.value := by
  simp only [Scalar.lt, le_eq_decide, Bool.and_eq_true, Bool.not_eq_true', decide_eq_true_eq,
    decide_eq_false_iff_not, not_le]
  exact ⟨fun h => h.2, fun h => ⟨h.le, h⟩⟩

@[simp] theorem isNaN_eq_false : Scalar.isNaN x = false := by simp [Scalar.isNaN]

theorem value_larger : (Scalar.larger x y).value = max x.value y.value := by
  unfold Scalar.larger
  rcases le_total y.value x.value with h | h
  · simp [h]
  · rcases h.eq_or_lt with heq | hlt
    · simp [heq]
    · simp [h, hlt.not_ge]

theorem value_relativeError : (relativeError x y).value =
    |x.value - y.value| / max (max |x.value| |y.value|) (1 / 2) := by
  simp only [relativeError, value_div, value_abs, value_sub, value_larger, value_half]

/-- The error of an entry is within a tolerance. -/
theorem relativeError_le_iff (t : Exact) :
    Scalar.le (relativeError x y) t = true ↔
      |x.value - y.value| / max (max |x.value| |y.value|) (1 / 2) ≤ t.value := by
  rw [le_iff, value_relativeError]

end Values

instance : OrderedScalar Exact where
  le_self_of_le_left _ := by simp
  le_self_of_le_right _ := by simp
  le_trans hxy hyz := (le_iff _ _).2 (((le_iff _ _).1 hxy).trans ((le_iff _ _).1 hyz))
  le_total := by
    intro x y _ _
    rw [le_iff, le_iff]
    exact le_total x.value y.value
  nan_of_isNaN h := by simp at h

/-! ### The rational numbers as a field -/

/-- Rational numbers are read as themselves. -/
def reading : FieldReading Exact ℚ where
  value := Exact.value
  injective _ _ := Exact.ext
  value_zero := rfl
  value_one := rfl
  value_add := value_add
  value_sub := value_sub
  value_mul := value_mul
  value_div := value_div
  value_power x n hx := ⟨⟨x.value ^ n⟩, if_neg fun h => hx h.1, rfl⟩

theorem reading_ordered : reading.Ordered where
  le_iff := le_iff
  value_abs := value_abs
  isFinite _ := rfl

/-- The sum of products. -/
theorem value_dot (n : ℕ) (f g : ℕ → Exact) :
    (Tensor.dot n f g).value = ∑ k ∈ Finset.range n, (f k).value * (g k).value :=
  reading.value_dot n f g

/-- The largest of some zeros. -/
theorem largest_of_zero {xs : List Exact} (h : ∀ x ∈ xs, x = Scalar.zero) :
    Scalar.largest Scalar.zero xs = Scalar.zero :=
  Exact.ext (reading.value_largest_of_zero (fun x hx => congrArg Exact.value (h x hx)) rfl)

/-- The step is positive, whatever the magnitude of the coordinate is. -/
theorem stepSize_pos (o : DiffOptions Exact) (magnitude : Exact) :
    0 < (o.stepSize magnitude).value :=
  reading_ordered.stepSize_pos o magnitude

end Exact

end JacobianAudit
