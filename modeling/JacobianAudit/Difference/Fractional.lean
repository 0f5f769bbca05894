/-
**Tableaus of fractional order.**

The order of the first error term may be any number. Unless it is an integer, the factors by which
the terms shrink are complex where the ratio of the steps is negative, and so is all that is
computed from them. Estimates themselves are real, and of a result only the real part counts.

Main definitions:

* `JacobianAudit.Tableau.factor` — the factor by which an error term shrinks;
* `JacobianAudit.Tableau.extendPlanar`, `JacobianAudit.Tableau.extrapolatePlanar` — the next row and
  the diagonal entry.
-/

import JacobianAudit.Binary64.Instance
import JacobianAudit.Difference.Tableau

set_option autoImplicit false

namespace JacobianAudit.Tableau

/-- The factor by which error term `j` shrinks from one step to the next, where the order of the
first one was written as a setting. The ratio is missing if what was given is no number. -/
def factor (order : Setting) (ratio : Option Float) (j : Nat) : Except Fault (Planar Float) := do
  match ← order.times (.count j), ratio with
  | some exponent, some ratio => Binary64.powerOf ratio exponent
  | _, _ => throw .notNumeric

/-- Eliminates one error term, like `eliminate`. -/
def eliminatePlanar (factor : Planar Float) (finer coarser : Planar (Tensor Float)) :
    Except Fault (Planar (Tensor Float)) := do
  (← (← factor.scale finer).minus coarser).dividedBy factor.lessOne

/-- The row that begins with the estimate at the next step. -/
def extendPlanar (order : Setting) (ratio : Option Float) (row : List (Planar (Tensor Float)))
    (value : Supplied Float) : Except Fault (List (Planar (Tensor Float))) := do
  let first ← value.read
  eliminateFrom (fun j finer coarser => do
    eliminatePlanar (← factor order ratio j) finer coarser) 1 (.real first) row

/-- The real part of the diagonal entry over estimates at steps that shrink by `ratio`. -/
def extrapolatePlanar (values : List (Supplied Float)) (order : Setting)
    (ratio : Option Float) : Except Fault (Tensor Float) := do
  return diagonal ((← lastRow (extendPlanar order ratio) values).map Planar.re)

end JacobianAudit.Tableau
