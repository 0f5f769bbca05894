/-
**The numbers that derivatives are computed with.**

Every algorithm of this library is written once, over an abstract type of scalars, so that the
definition that runs on binary64 numbers is the one that can be studied in exact arithmetic. The
class asks for operations only. A comparison is a Boolean function: a scalar that is not a number
compares with nothing, itself included, and is recognised by that.

Main definitions:

* `JacobianAudit.Scalar` — the operations;
* `JacobianAudit.Scalar.isNaN`, `JacobianAudit.Scalar.lt`, `JacobianAudit.Scalar.eq` — what the
  order says;
* `JacobianAudit.Scalar.larger`, `JacobianAudit.Scalar.orLarger` — the two maxima, which differ on
  what is not a number;
* `JacobianAudit.Scalar.largest` — the largest of a list.
-/

import JacobianAudit.Fault

set_option autoImplicit false

namespace JacobianAudit

/-- The operations that differences, manifolds and comparisons are computed with. -/
class Scalar (α : Type) extends Add α, Sub α, Mul α, Div α, Neg α where
  zero : α
  one : α
  /-- What a missing number reads as. -/
  nan : α
  abs : α → α
  le : α → α → Bool
  isFinite : α → Bool
  sqrt : α → α
  sin : α → α
  cos : α → α
  /-- An integer power, or the reason why there is none. -/
  power : α → Int → Except Fault α
  /-- The exact number that the scalar stands for. -/
  quantity : α → Quantity
  /-- The scalar as it is shown in a message. -/
  text : α → String

namespace Scalar

variable {α : Type} [Scalar α]

/-- The scalar two. -/
def two : α := one + one

/-- The scalar one half. -/
def half : α := one / two

/-- A scalar that does not compare with itself is not a number. -/
def isNaN (x : α) : Bool := !le x x

/-- Strictly below. -/
def lt (x y : α) : Bool := le x y && !le y x

/-- Neither above nor below. -/
def eq (x y : α) : Bool := le x y && le y x

/-- The larger of two scalars; what is not a number prevails on either side. -/
def larger (x y : α) : α := if le y x || isNaN x then x else y

/-- The first scalar unless the second is strictly above it; what is not a number stays in the
first place and never enters from the second. -/
def orLarger (x y : α) : α := if lt x y then y else x

/-- The largest scalar of a list above a start value; it is not a number as soon as one entry is
not. -/
def largest (start : α) (xs : List α) : α := xs.foldl larger start

@[simp] theorem largest_nil (start : α) : largest start [] = start := rfl

/-- The sum of a list, from the left, starting at zero. -/
def sum (xs : List α) : α := xs.foldl (· + ·) zero

end Scalar

end JacobianAudit
