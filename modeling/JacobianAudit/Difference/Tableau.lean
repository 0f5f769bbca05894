/-
**Extrapolation tableaus.**

Estimates at steps that shrink by a constant ratio have errors that shrink by powers of the ratio.
A row of the tableau holds the estimate at one step and, behind it, what is left when the error
terms are eliminated one after the other with the help of the row before. Its last entry, the
diagonal one, uses all steps so far.

Main definitions:

* `JacobianAudit.Tableau.eliminateFrom` — a row, given how single error terms are eliminated;
* `JacobianAudit.Tableau.extend` — the next row, given the order of the first error term and the
  ratio of the steps;
* `JacobianAudit.Tableau.diagonal` — the last entry of a row;
* `JacobianAudit.Tableau.extrapolate` — the diagonal entry over a list of estimates.
-/

import JacobianAudit.Tensor.Nested

set_option autoImplicit false

namespace JacobianAudit.Tableau

/-- The rest of a row from its entry `j - 1`, given the rest of the row before from the entry with
the same number: the next entry is this one without error term `j`. -/
def eliminateFrom {ε : Type} (eliminate : Nat → ε → ε → Except Fault ε) :
    Nat → ε → List ε → Except Fault (List ε)
  | _, entry, [] => return [entry]
  | j, entry, coarser :: rest => do
    let next ← eliminate j entry coarser
    return entry :: (← eliminateFrom eliminate (j + 1) next rest)

/-- The last row over estimates, of which there have to be two at least. -/
def lastRow {α ε : Type} (extend : List ε → Supplied α → Except Fault (List ε))
    (values : List (Supplied α)) : Except Fault (List ε) :=
  if values.length < 2 then throw (.argument .tooFewValues) else values.foldlM extend []

variable {α : Type} [Scalar α]

/-- Eliminates one error term: `(f * finer - coarser) / (f - 1)`, where `f` is the factor by which
the term shrinks from one step to the next. -/
def eliminate (factor : α) (finer coarser : Tensor α) : Except Fault (Tensor α) := do
  let difference ← (finer.map (factor * ·)).zipWith (· - ·) coarser
  return difference.map (· / (factor - Scalar.one))

/-- The row that begins with the estimate at the next step. Error term `j` has the order
`order * j`. -/
def extend (row : List (Tensor α)) (value : Supplied α) (order : Int) (ratio : α) :
    Except Fault (List (Tensor α)) := do
  let first ← value.read
  eliminateFrom (fun j finer coarser => do
    eliminate (← Scalar.power ratio (order * j)) finer coarser) 1 first row

/-- The last entry of a row. -/
def diagonal (row : List (Tensor α)) : Tensor α := row.getLastD (.scalar Scalar.nan)

/-- The diagonal entry over estimates at steps that shrink by `ratio`. -/
def extrapolate (values : List (Supplied α)) (order : Int) (ratio : α) :
    Except Fault (Tensor α) := do
  return diagonal (← lastRow (fun row value => extend row value order ratio) values)

end JacobianAudit.Tableau
