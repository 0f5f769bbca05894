/-
**Polynomials along lines.**

Along a line a polynomial in many variables is a polynomial in one, whose degree is no larger and
whose slope at the origin is the derivative of the polynomial in the direction of the line. This is
all that difference quotients depend on: a central difference sees no even power of the step, and a
forward difference none but the first if the polynomial is affine.

Main definitions:

* `JacobianAudit.slope` — the derivative in a direction that has finitely many components.

Main results:

* `JacobianAudit.eval_line` — a polynomial of degree two along a line;
* `JacobianAudit.central_quotient`, `JacobianAudit.forward_quotient` — **difference quotients are
  exact** up to degree two and one.
-/

import Mathlib.Algebra.MvPolynomial.PDeriv
import Mathlib.Algebra.MvPolynomial.Polynomial
import Mathlib.Algebra.Order.Field.Rat
import Mathlib.Algebra.Polynomial.Derivative
import Mathlib.RingTheory.Polynomial.Basic
import Mathlib.Tactic.FieldSimp
import Mathlib.Tactic.Ring

set_option autoImplicit false

namespace JacobianAudit

open MvPolynomial

variable {ι : Type}

/-- The derivative of a polynomial at a point, in a direction with components in a finite set. -/
noncomputable def slope (q : MvPolynomial ι ℚ) (x d : ι → ℚ) (s : Finset ι) : ℚ :=
  ∑ v ∈ s, d v * eval x (pderiv v q)

/-- The polynomial along the line through a point. -/
noncomputable def alongLine (q : MvPolynomial ι ℚ) (x d : ι → ℚ) : Polynomial ℚ :=
  aeval (fun v => Polynomial.C (x v) + Polynomial.C (d v) * Polynomial.X) q

section AlongLine

variable (x d : ι → ℚ)

@[simp] theorem alongLine_C (a : ℚ) : alongLine (C a) x d = Polynomial.C a := aeval_C _ a

@[simp] theorem alongLine_X (v : ι) :
    alongLine (X v) x d = Polynomial.C (x v) + Polynomial.C (d v) * Polynomial.X := aeval_X _ v

@[simp] theorem alongLine_add (p q : MvPolynomial ι ℚ) :
    alongLine (p + q) x d = alongLine p x d + alongLine q x d := map_add _ p q

@[simp] theorem alongLine_mul (p q : MvPolynomial ι ℚ) :
    alongLine (p * q) x d = alongLine p x d * alongLine q x d := map_mul _ p q

theorem eval_alongLine (q : MvPolynomial ι ℚ) (t : ℚ) :
    (alongLine q x d).eval t = eval (fun v => x v + d v * t) q := by
  induction q using MvPolynomial.induction_on with
  | C a => simp
  | add p q hp hq => simp [hp, hq]
  | mul_X p v hp => simp [hp]

theorem coeff_zero_alongLine (q : MvPolynomial ι ℚ) : (alongLine q x d).coeff 0 = eval x q := by
  rw [Polynomial.coeff_zero_eq_eval_zero, eval_alongLine]
  simp

/-- The chain rule: the derivative along the line. -/
theorem derivative_alongLine [DecidableEq ι] (q : MvPolynomial ι ℚ) (s : Finset ι)
    (hd : ∀ v ∉ s, d v = 0) :
    (alongLine q x d).derivative =
      ∑ v ∈ s, Polynomial.C (d v) * alongLine (pderiv v q) x d := by
  induction q using MvPolynomial.induction_on with
  | C a => simp [alongLine]
  | add p q hp hq => simp [hp, hq, mul_add, Finset.sum_add_distrib]
  | mul_X p i hp =>
      have hterm : ∀ v, alongLine (pderiv v (p * X i)) x d =
          alongLine (pderiv v p) x d * alongLine (X i) x d +
            if v = i then alongLine p x d else 0 := by
        intro v
        rw [pderiv_mul, alongLine_add, alongLine_mul, alongLine_mul]
        rcases eq_or_ne v i with rfl | hv
        · rw [pderiv_X_self, if_pos rfl, show (1 : MvPolynomial ι ℚ) = C 1 from rfl, alongLine_C,
            Polynomial.C_1, mul_one]
        · rw [pderiv_X_of_ne hv.symm, if_neg hv, show (0 : MvPolynomial ι ℚ) = C 0 from C_0.symm,
            alongLine_C, Polynomial.C_0, mul_zero]
      have hX : (alongLine (X i) x d).derivative = Polynomial.C (d i) := by simp
      rw [alongLine_mul, Polynomial.derivative_mul, hp, hX, Finset.sum_mul]
      simp only [hterm, mul_add, Finset.sum_add_distrib, mul_assoc]
      congr 1
      -- only the component along `i` is left of the second sum
      by_cases hi : i ∈ s
      · simp [hi, mul_comm]
      · simp [hi, hd i hi]

theorem natDegree_alongLine {q : MvPolynomial ι ℚ} {n : ℕ} (h : q.totalDegree ≤ n) :
    (alongLine q x d).natDegree ≤ n := by
  have hline : ∀ v, (Polynomial.C (x v) + Polynomial.C (d v) * Polynomial.X).natDegree ≤ 1 := by
    intro v
    rw [add_comm]
    exact Polynomial.natDegree_linear_le
  have hdegree := aeval_natDegree_le q h _ hline
  rwa [mul_one] at hdegree

end AlongLine

/-- **A polynomial of degree two along a line**: its value, its slope, and a curvature that does not
depend on how far one goes; there is none if the degree is one. -/
theorem eval_line [DecidableEq ι] {q : MvPolynomial ι ℚ} (hq : q.totalDegree ≤ 2) (x d : ι → ℚ)
    (s : Finset ι) (hd : ∀ v ∉ s, d v = 0) :
    ∃ b, (∀ t, eval (fun v => x v + d v * t) q = eval x q + slope q x d s * t + b * t ^ 2) ∧
      (q.totalDegree ≤ 1 → b = 0) := by
  refine ⟨(alongLine q x d).coeff 2, fun t => ?_, fun h => ?_⟩
  · have hdegree : (alongLine q x d).natDegree < 3 :=
      Nat.lt_succ_of_le (natDegree_alongLine x d hq)
    have hone : (alongLine q x d).coeff 1 = slope q x d s := by
      have hderivative := Polynomial.coeff_derivative (alongLine q x d) 0
      rw [derivative_alongLine x d q s hd, Polynomial.finsetSum_coeff] at hderivative
      simp only [Polynomial.coeff_C_mul, coeff_zero_alongLine] at hderivative
      rw [slope, hderivative]
      simp
    rw [← eval_alongLine, Polynomial.eval_eq_sum_range' hdegree, Finset.sum_range_succ,
      Finset.sum_range_succ, Finset.sum_range_one, coeff_zero_alongLine, hone]
    ring
  · exact Polynomial.coeff_eq_zero_of_natDegree_lt
      (Nat.lt_of_le_of_lt (natDegree_alongLine x d h) one_lt_two)

/-- The central difference quotient of a polynomial of degree two is its slope. -/
theorem central_quotient [DecidableEq ι] {q : MvPolynomial ι ℚ} (hq : q.totalDegree ≤ 2)
    (x d : ι → ℚ) (s : Finset ι) (hd : ∀ v ∉ s, d v = 0) {h : ℚ} (hh : h ≠ 0) :
    (eval (fun v => x v + d v * h) q - eval (fun v => x v + d v * -h) q) / (2 * h) =
      slope q x d s := by
  obtain ⟨b, hline, -⟩ := eval_line hq x d s hd
  rw [hline, hline]
  field_simp
  ring

/-- The forward difference quotient of an affine polynomial is its slope. -/
theorem forward_quotient [DecidableEq ι] {q : MvPolynomial ι ℚ} (hq : q.totalDegree ≤ 1)
    (x d : ι → ℚ) (s : Finset ι) (hd : ∀ v ∉ s, d v = 0) {h : ℚ} (hh : h ≠ 0) :
    (eval (fun v => x v + d v * h) q - eval x q) / h = slope q x d s := by
  obtain ⟨b, hline, hb⟩ := eval_line (hq.trans one_le_two) x d s hd
  rw [hline, hb hq]
  field_simp
  ring

end JacobianAudit
