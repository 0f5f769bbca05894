/-
**Flat parameterizations.**

A step adds to the point: the tangent vector itself, or the tangent vector's image under a fixed
matrix that has at least as many rows as columns. Rows of zeros freeze the entries of the point
they belong to.

Main definitions:

* `JacobianAudit.Euclidean` — the identity parameterization of a size;
* `JacobianAudit.LinearMap` — the parameterization by the columns of a matrix.
-/

import JacobianAudit.Tensor.Declared
import JacobianAudit.Tensor.Nested
import JacobianAudit.Tensor.Product

set_option autoImplicit false

namespace JacobianAudit

/-- The identity parameterization. -/
structure Euclidean where
  size : Nat
  size_pos : 0 < size

namespace Euclidean

/-- The identity parameterization of a size that was written as a setting. -/
def ofSetting (size : Setting) : Except Fault Euclidean := do
  let n ← size.toInt
  if h : 0 < n then return ⟨n.toNat, Setting.toNat_pos h⟩
  else throw (.argument (.sizeNotPositive size.shown))

variable {α : Type} [Scalar α]

/-- The step `x + δ`. -/
def plus (x delta : Supplied α) : Except Fault (Tensor α) := do
  let x ← x.read
  let delta ← delta.read
  x.zipWith (· + ·) delta

/-- The derivative of the step: the identity matrix, if there is one so large. -/
def plusJacobian (space : Euclidean) : Except Fault (Tensor α) :=
  (Shape.allocate [space.size, space.size]).map fun _ => .identity space.size

end Euclidean

/-- The parameterization by the columns of a matrix. -/
structure LinearMap (α : Type) where
  rows : Nat
  cols : Nat
  matrix : Tensor α
  shape_eq : matrix.shape = [rows, cols]
  cols_le : cols ≤ rows

namespace LinearMap

variable {α : Type} [Scalar α]

/-- The parameterization by a matrix, which may not be wider than high. -/
def ofMatrix (matrix : Supplied α) : Except Fault (LinearMap α) := do
  let a ← matrix.read
  match h : a.shape with
  | [rows, cols] =>
    if hc : cols ≤ rows then return ⟨rows, cols, a, h, hc⟩
    else throw (.argument (.matrixTooWide a.shape))
  | shape => throw (.argument (.matrixRank shape.length))

/-- The step `x + A δ`. -/
def plus (m : LinearMap α) (x delta : Supplied α) : Except Fault (Tensor α) := do
  let x ← x.read
  let moved ← m.matrix.apply m.rows m.cols (← delta.read)
  x.zipWith (· + ·) moved

end LinearMap

end JacobianAudit
