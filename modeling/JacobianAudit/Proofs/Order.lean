/-
**The order of scalars.**

A comparison of scalars is a Boolean function, and what is not a number compares with nothing.
Apart from that the comparison is a total preorder. This module states that much as a class of its
own, shows that binary64 numbers have it, and derives what the three maxima of the library are for:
a maximum is within a bound exactly when everything that went into it is.

Main definitions:

* `JacobianAudit.OrderedScalar` — the laws of the comparison;
* `JacobianAudit.Binary64.Place` — where a binary64 number stands in the order, as a triple of
  integers that are compared lexicographically.

Main results:

* `JacobianAudit.Binary64.unpacked_le_iff` — the comparison of binary64 numbers is the one of their
  places, and what is not a number has no place;
* `JacobianAudit.Scalar.larger_le_iff`, `JacobianAudit.Scalar.orLarger_le_iff`,
  `JacobianAudit.Scalar.largest_le_iff` — **a maximum is within a bound exactly when all of its
  operands are**.
-/

import Mathlib.Data.Prod.Lex
import Mathlib.Order.Basic
import JacobianAudit.Binary64.Instance

set_option autoImplicit false

namespace JacobianAudit

/-- The comparison of scalars is a total preorder of those that compare at all. -/
class OrderedScalar (α : Type) [Scalar α] : Prop where
  le_self_of_le_left : ∀ {x y : α}, Scalar.le x y = true → Scalar.le x x = true
  le_self_of_le_right : ∀ {x y : α}, Scalar.le x y = true → Scalar.le y y = true
  le_trans : ∀ {x y z : α}, Scalar.le x y = true → Scalar.le y z = true → Scalar.le x z = true
  le_total : ∀ {x y : α}, Scalar.le x x = true → Scalar.le y y = true →
    Scalar.le x y = true ∨ Scalar.le y x = true
  /-- Where something is not a number, what a missing number reads as is none either. -/
  nan_of_isNaN : ∀ {x : α}, Scalar.isNaN x = true → Scalar.isNaN (Scalar.nan : α) = true

/-! ### Maxima and bounds -/

namespace Scalar

variable {α : Type} [Scalar α]

theorem isNaN_eq_false_iff {x : α} : isNaN x = false ↔ le x x = true := by
  simp [isNaN]

theorem isNaN_eq_true_iff {x : α} : isNaN x = true ↔ le x x = false := by
  simp [isNaN]

/-- Among scalars that are numbers, the one that the second maximum picks is a number. -/
theorem isNaN_orLarger {x y : α} (hx : isNaN x = false) (hy : isNaN y = false) :
    isNaN (orLarger x y) = false := by
  unfold orLarger
  split <;> assumption

variable [OrderedScalar α]

/-- What is not a number is within no bound. -/
theorem le_eq_false_of_isNaN {x t : α} (h : isNaN x = true) : le x t = false := by
  cases hle : le x t with
  | false => rfl
  | true =>
      have hself := OrderedScalar.le_self_of_le_left hle
      rw [isNaN_eq_true_iff.1 h] at hself
      cases hself

omit [OrderedScalar α] in
theorem lt_eq_true_iff {x y : α} : lt x y = true ↔ le x y = true ∧ le y x = false := by
  rw [lt, Bool.and_eq_true, Bool.not_eq_true']

/-- Of two numbers, the one that is not above the other is within it. -/
theorem le_of_lt_eq_false {x y : α} (hx : isNaN x = false) (hy : isNaN y = false)
    (h : lt y x = false) : le x y = true := by
  rcases OrderedScalar.le_total (isNaN_eq_false_iff.1 hx) (isNaN_eq_false_iff.1 hy) with hxy | hyx
  · exact hxy
  · rwa [lt, hyx, Bool.true_and, Bool.not_eq_false'] at h

theorem lt_of_le_of_lt {x y z : α} (hxy : le x y = true) (hyz : lt y z = true) :
    lt x z = true := by
  obtain ⟨hle, hnot⟩ := lt_eq_true_iff.1 hyz
  refine lt_eq_true_iff.2 ⟨OrderedScalar.le_trans hxy hle, ?_⟩
  by_contra hback
  rw [OrderedScalar.le_trans ((Bool.not_eq_false _).mp hback) hxy] at hnot
  cases hnot

theorem lt_of_lt_of_le {x y z : α} (hxy : lt x y = true) (hyz : le y z = true) :
    lt x z = true := by
  obtain ⟨hle, hnot⟩ := lt_eq_true_iff.1 hxy
  refine lt_eq_true_iff.2 ⟨OrderedScalar.le_trans hle hyz, ?_⟩
  by_contra hback
  rw [OrderedScalar.le_trans hyz ((Bool.not_eq_false _).mp hback)] at hnot
  cases hnot

/-- What is not below a bound has nothing above it that is. -/
theorem lt_eq_false_of_le {x y t : α} (hxy : le x y = true) (h : lt x t = false) :
    lt y t = false := by
  by_contra hlt
  rw [lt_of_le_of_lt hxy ((Bool.not_eq_false _).mp hlt)] at h
  cases h

/-- The larger of two scalars is within a bound exactly when both are. -/
theorem larger_le_iff {x y t : α} :
    le (larger x y) t = true ↔ le x t = true ∧ le y t = true := by
  unfold larger
  cases hyx : le y x with
  | true =>
      -- the first operand is above the second one
      simp only [Bool.true_or, if_true]
      exact ⟨fun h => ⟨h, OrderedScalar.le_trans hyx h⟩, fun h => h.1⟩
  | false =>
      cases hx : isNaN x with
      | true =>
          have hno := le_eq_false_of_isNaN (t := t) hx
          simp [hno]
      | false =>
          simp only [Bool.or_false, Bool.false_eq_true, if_false]
          refine ⟨fun h => ⟨?_, h⟩, fun h => h.2⟩
          have hy := OrderedScalar.le_self_of_le_left h
          rcases OrderedScalar.le_total (isNaN_eq_false_iff.1 hx) hy with hxy | hyx'
          · exact OrderedScalar.le_trans hxy h
          · rw [hyx] at hyx'
            cases hyx'

/-- The largest of a list is within a bound exactly when all of it is. -/
theorem largest_le_iff {xs : List α} {start t : α} :
    le (largest start xs) t = true ↔ le start t = true ∧ ∀ x ∈ xs, le x t = true := by
  induction xs generalizing start with
  | nil => simp
  | cons x xs ih =>
      have hstep : largest start (x :: xs) = largest (larger start x) xs := rfl
      rw [hstep, ih, larger_le_iff]
      simp [and_assoc]

/-- The second maximum of two numbers is within a bound exactly when both are. -/
theorem orLarger_le_iff {x y t : α} (hx : isNaN x = false) (hy : isNaN y = false) :
    le (orLarger x y) t = true ↔ le x t = true ∧ le y t = true := by
  unfold orLarger lt
  rcases OrderedScalar.le_total (isNaN_eq_false_iff.1 hx) (isNaN_eq_false_iff.1 hy) with hxy | hyx
  · cases hyx : le y x with
    | true =>
        simp only [hxy, Bool.not_true, Bool.and_false, Bool.false_eq_true, if_false]
        exact ⟨fun h => ⟨h, OrderedScalar.le_trans hyx h⟩, fun h => h.1⟩
    | false =>
        simp only [hxy, Bool.not_false, Bool.and_true, if_true]
        exact ⟨fun h => ⟨OrderedScalar.le_trans hxy h, h⟩, fun h => h.2⟩
  · simp only [hyx, Bool.not_true, Bool.and_false, Bool.false_eq_true, if_false]
    exact ⟨fun h => ⟨h, OrderedScalar.le_trans hyx h⟩, fun h => h.1⟩

/-- The second maximum of a list of numbers is within a bound exactly when all of it is. -/
theorem foldl_orLarger_le_iff {xs : List α} {start t : α} (hs : isNaN start = false)
    (hxs : ∀ x ∈ xs, isNaN x = false) :
    le (xs.foldl orLarger start) t = true ↔ le start t = true ∧ ∀ x ∈ xs, le x t = true := by
  induction xs generalizing start with
  | nil => simp
  | cons x xs ih =>
      have hx : isNaN x = false := hxs x List.mem_cons_self
      have hrest : ∀ y ∈ xs, isNaN y = false := fun y hy => hxs y (List.mem_cons_of_mem x hy)
      rw [List.foldl_cons, ih (isNaN_orLarger hs hx) hrest, orLarger_le_iff hs hx]
      simp [and_assoc]

end Scalar

/-! ### Binary64 numbers -/

namespace Binary64

open Float.Model (UnpackedFloat)

/-- A place in the order of binary64 numbers: the kind of number first, then its exponent and its
mantissa, both negated below zero. -/
abbrev Place := ℤ ×ₗ ℤ ×ₗ ℤ

/-- Where a number stands. What is not a number stands nowhere. -/
def place? : UnpackedFloat → Option Place
  | .notANumber => none
  | .infinity .negative => some (toLex (-2, toLex (0, 0)))
  | .finite .negative m e _ => some (toLex (-1, toLex (-e, -(m : ℤ))))
  | .zero _ => some (toLex (0, toLex (0, 0)))
  | .finite .positive m e _ => some (toLex (1, toLex (e, (m : ℤ))))
  | .infinity .positive => some (toLex (2, toLex (0, 0)))

theorem isLE_then_compare (e₁ e₂ : ℤ) (m₁ m₂ : ℕ) :
    ((compare e₁ e₂).then (compare m₁ m₂)).isLE = true ↔ e₁ < e₂ ∨ e₁ = e₂ ∧ m₁ ≤ m₂ := by
  rcases lt_trichotomy e₁ e₂ with h | h | h
  · simp [compare_lt_iff_lt.2 h, h]
  · subst h
    simp [Nat.isLE_compare]
  · simp [compare_gt_iff_gt.2 h, h.not_gt, h.ne']

theorem isGE_then_compare (e₁ e₂ : ℤ) (m₁ m₂ : ℕ) :
    ((compare e₁ e₂).then (compare m₁ m₂)).isGE = true ↔ e₂ < e₁ ∨ e₁ = e₂ ∧ m₂ ≤ m₁ := by
  rcases lt_trichotomy e₁ e₂ with h | h | h
  · simp [compare_lt_iff_lt.2 h, h.not_gt, h.ne]
  · subst h
    simp [Nat.isGE_compare]
  · simp [compare_gt_iff_gt.2 h, h]

theorem isLE_compare_sign (s t : UnpackedFloat.Sign) :
    (compare s t).isLE = true ↔ s = .negative ∨ t = .positive := by
  cases s <;> cases t <;> simp <;> rfl

/-- **Binary64 numbers are compared by their places.** -/
theorem unpacked_le_iff (a b : UnpackedFloat) :
    a.le b = true ↔ ∃ p ∈ place? a, ∃ q ∈ place? b, p ≤ q := by
  -- one case for each pair of kinds; only numbers of one sign are left to compare
  rcases a with (_ | _) | _ | _ | ⟨_ | _, m₁, e₁, _⟩ <;>
    rcases b with (_ | _) | _ | _ | ⟨_ | _, m₂, e₂, _⟩ <;>
    dsimp only [UnpackedFloat.le, UnpackedFloat.compare, place?] <;>
    simp [Prod.Lex.le_iff, isLE_then_compare, isGE_then_compare, isLE_compare_sign]

theorem le_iff (x y : Float) :
    Scalar.le x y = true ↔
      ∃ p ∈ place? x.toModel.unpack, ∃ q ∈ place? y.toModel.unpack, p ≤ q := by
  rw [← unpacked_le_iff]
  show decide (x ≤ y) = true ↔ _
  rw [decide_eq_true_iff]
  show decide (x.toModel ≤ y.toModel) = true ↔ _
  rw [decide_eq_true_iff]
  exact Iff.rfl

/-- A binary64 number compares with itself exactly when it has a place. -/
theorem le_self_iff (x : Float) : Scalar.le x x = true ↔ ∃ p, place? x.toModel.unpack = some p := by
  rw [le_iff]
  constructor
  · rintro ⟨p, hp, -⟩
    exact ⟨p, hp⟩
  · rintro ⟨p, hp⟩
    exact ⟨p, hp, p, hp, le_rfl⟩

end Binary64

instance : OrderedScalar Float where
  le_self_of_le_left h := by
    obtain ⟨p, hp, -⟩ := (Binary64.le_iff _ _).1 h
    exact (Binary64.le_self_iff _).2 ⟨p, hp⟩
  le_self_of_le_right h := by
    obtain ⟨-, -, q, hq, -⟩ := (Binary64.le_iff _ _).1 h
    exact (Binary64.le_self_iff _).2 ⟨q, hq⟩
  le_trans hxy hyz := by
    obtain ⟨p, hp, q, hq, hpq⟩ := (Binary64.le_iff _ _).1 hxy
    obtain ⟨q', hq', r, hr, hqr⟩ := (Binary64.le_iff _ _).1 hyz
    obtain rfl : q = q' := Option.some_inj.1 (hq.symm.trans hq')
    exact (Binary64.le_iff _ _).2 ⟨p, hp, r, hr, hpq.trans hqr⟩
  le_total hx hy := by
    obtain ⟨p, hp⟩ := (Binary64.le_self_iff _).1 hx
    obtain ⟨q, hq⟩ := (Binary64.le_self_iff _).1 hy
    rcases le_total p q with h | h
    · exact .inl ((Binary64.le_iff _ _).2 ⟨p, hp, q, hq, h⟩)
    · exact .inr ((Binary64.le_iff _ _).2 ⟨q, hq, p, hp, h⟩)
  nan_of_isNaN _ := by decide +kernel

end JacobianAudit
