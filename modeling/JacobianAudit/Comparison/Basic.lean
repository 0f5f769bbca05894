/-
**Comparing analytic and numeric Jacobians.**

The error of an entry is the difference of the two numbers, relative to the larger magnitude but
never to less than one half, so that it stays finite where both are zero. An entry offends if its
error is not within the tolerance; an error that is not a number never is. Offending entries are
listed worst first, with entries that are equally bad in row-major order.

Main definitions:

* `JacobianAudit.relativeError`, `JacobianAudit.relativeErrors` — the error measure;
* `JacobianAudit.Offence` — an entry that is not within the tolerance;
* `JacobianAudit.BlockComparison` — the outcome for one block;
* `JacobianAudit.compareBlock` — the comparison.
-/

import JacobianAudit.Setting
import JacobianAudit.Tensor.Nested

set_option autoImplicit false

namespace JacobianAudit

variable {α : Type} [Scalar α]

/-- The error of an entry. -/
def relativeError (a n : α) : α :=
  Scalar.abs (a - n) / Scalar.larger (Scalar.larger (Scalar.abs a) (Scalar.abs n)) Scalar.half

/-- The errors of two arrays of one shape, entry by entry. -/
def errorsOf (a n : Tensor α) : Except Fault (Tensor α) :=
  if a.shape = n.shape then a.zipWith relativeError n
  else throw (.size (.shapesDiffer a.shape n.shape))

/-- The errors of two arrays as they are supplied. -/
def relativeErrors (analytic numeric : Supplied α) : Except Fault (Tensor α) := do
  let a ← analytic.read
  let n ← numeric.read
  errorsOf a n

/-- An entry that is not within the tolerance: its row and column, the two numbers and the
error. -/
structure Offence (α : Type) where
  row : Int
  col : Int
  analytic : α
  numeric : α
  error : α

/-- Whether an error counts as infinite when errors are ordered. -/
def Offence.isTop (o : Offence α) : Bool := Scalar.isNaN o.error || !Scalar.isFinite o.error

/-- The first offence is at least as bad as the second one. -/
def Offence.atLeastAsBad (a b : Offence α) : Bool :=
  a.isTop || (!b.isTop && Scalar.le b.error a.error)

/-- The outcome of comparing one block, whose number is kept as it was written. -/
structure BlockComparison (α : Type) where
  block : Setting
  worst : α
  tolerance : α
  offending : List (Offence α)

/-- The block passed: its worst error is within the tolerance. -/
def BlockComparison.passed (c : BlockComparison α) : Bool := Scalar.le c.worst c.tolerance

/-- The worst of some errors: not a number as soon as one of them is not, and zero where there are
none. -/
def worstError : List α → α
  | [] => Scalar.zero
  | e :: rest => Scalar.largest e rest

/-- The offending entries of a matrix in row-major order, given the two matrices and the errors. -/
def offences (cols : Nat) (a n errors : List α) (tolerance : α) : List (Offence α) :=
  (((a.zip n).zip errors).zipIdx.filter fun p => !Scalar.le p.1.2 tolerance).map fun p =>
    ⟨((p.2 / cols : Nat) : Int), ((p.2 % cols : Nat) : Int), p.1.1.1, p.1.1.2, p.1.2⟩

/-- Compares one block's Jacobians. Arrays that are no matrices have no rows and columns to name,
which is a fault only if there is an offending entry. -/
def compareBlock (block : Setting) (analytic numeric : Supplied α) (tolerance : α) :
    Except Fault (BlockComparison α) := do
  let a ← analytic.read
  let n ← numeric.read
  let errors ← errorsOf a n
  match errors.shape with
  | [_, cols] =>
    return ⟨block, worstError errors.data, tolerance,
      (offences cols a.data n.data errors.data tolerance).mergeSort Offence.atLeastAsBad⟩
  | _ =>
    if errors.data.all (Scalar.le · tolerance) then
      return ⟨block, worstError errors.data, tolerance, []⟩
    else throw (.malformed .unpacking)

end JacobianAudit
