/-
**The record of a probe.**

A record holds everything that a probe computed, for diagnosis. It belongs to the caller and is
overwritten by every probe that gets past its arguments: first it is cleared and all arrays are
zero arrays of the right shapes, then the results are filled in.

Main definitions:

* `JacobianAudit.Record` — the record;
* `JacobianAudit.Record.reset` — clearing it.
-/

import JacobianAudit.Tensor.Declared

set_option autoImplicit false

namespace JacobianAudit

/-- Everything that a probe computed. The four lists hold one matrix per parameter block. -/
structure Record (α : Type) where
  /-- The evaluator succeeded at the point. Whether the Jacobians agree is told by the log. -/
  success : Bool
  residuals : Tensor α
  /-- Analytic Jacobians as the evaluator answered them. -/
  ambient : List (Tensor α)
  /-- Numeric Jacobians along the entries of the blocks. -/
  numericAmbient : List (Tensor α)
  /-- Analytic Jacobians projected onto the tangent spaces. -/
  tangent : List (Tensor α)
  /-- Numeric Jacobians along the tangent coordinates. -/
  numericTangent : List (Tensor α)
  /-- The worst error over all blocks. -/
  worst : α
  /-- Empty if every block passed. -/
  log : String

namespace Record

variable {α : Type} [Scalar α]

/-- The record before the first probe. -/
def blank : Record α := ⟨false, .vector [], [], [], [], [], Scalar.zero, ""⟩

/-- Zero matrices with the given numbers of columns. -/
def zeroMatrices (rows : Setting) (cols : List Setting) : Except Fault (List (Tensor α)) :=
  cols.mapM fun c => Tensor.zeros [rows, c]

/-- Clears the record field by field. If there turns out to be no array of a declared shape, the
fields from there on stay as they were. -/
def reset (r : Record α) (numResiduals : Setting) (sizes tangentSizes : List Setting) :
    Except Fault Unit × Record α :=
  let r := { r with success := false }
  match Tensor.zeros numResiduals.extents with
  | .error fault => (.error fault, r)
  | .ok residuals =>
    let r := { r with residuals }
    match zeroMatrices numResiduals sizes with
    | .error fault => (.error fault, r)
    | .ok ambient =>
      let r := { r with ambient, numericAmbient := ambient }
      match zeroMatrices numResiduals tangentSizes with
      | .error fault => (.error fault, r)
      | .ok tangent =>
        (.ok (), { r with tangent, numericTangent := tangent, worst := Scalar.zero, log := "" })

end Record

end JacobianAudit
