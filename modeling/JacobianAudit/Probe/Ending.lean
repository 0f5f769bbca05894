/-
**How a probe can end.**

A probe may be refused for its arguments, may find no value at the point, may be interrupted while
it differentiates, or may get to compare all blocks. What it answers and what it leaves in the
record are functions of how it ended.

Main definitions:

* `JacobianAudit.Ending` — the ways to end, each with what is known by then;
* `JacobianAudit.Ending.verdict` — the answer;
* `JacobianAudit.Ending.record` — the record afterwards.
-/

import JacobianAudit.Comparison.Report
import JacobianAudit.Probe.Record

set_option autoImplicit false

namespace JacobianAudit

/-- What the evaluator answered at the point, checked. -/
structure Reading (α : Type) where
  residuals : List α
  jacobians : List (Tensor α)

/-- The matrices that a probe has computed so far, one per block. -/
structure Progress (α : Type) where
  tangent : List (Tensor α) := []
  numericTangent : List (Tensor α) := []
  numericAmbient : List (Tensor α) := []

/-- How a probe ended. -/
inductive Ending (α : Type) where
  /-- The tolerance or the parameters were refused. Nothing was called and nothing recorded. -/
  | refused (fault : Fault)
  /-- A fault before the answer at the point was known to be in order. -/
  | faulted (fault : Fault)
  /-- The evaluator has no value at the point. -/
  | pointFailed
  /-- A fault while a block was projected or differentiated. -/
  | interrupted (reading : Reading α) (progress : Progress α) (block : Nat) (fault : Fault)
  /-- All blocks were compared. -/
  | compared (reading : Reading α) (progress : Progress α)
      (comparisons : List (BlockComparison α))

namespace Ending

variable {α : Type}

/-- The message of a probe that found no value at the point. -/
def pointFailure : String := "Function evaluation with Jacobians failed."

/-- The message of a probe that could not differentiate a block. -/
def differentiationFailure (block : Nat) (cause : EvaluationFault) : String :=
  "Numeric differentiation failed for parameter block " ++ toString block ++ ". " ++ cause.message

/-- The line that an interruption leaves in the log: only an evaluation that could not be carried
out is explained there. -/
def interruptionLog (block : Nat) : Fault → String
  | .evaluation cause => differentiationFailure block cause ++ "\n"
  | _ => ""

variable [Scalar α]

/-- What the probe answers: whether the Jacobians agree within the tolerance, or a fault. An
evaluation that could not be carried out is no fault of the probe but a check that failed. -/
def verdict (tolerance : α) : Ending α → Except Fault Bool
  | refused fault => .error fault
  | faulted fault => .error fault
  | pointFailed => .ok false
  | interrupted _ _ _ (.evaluation _) => .ok false
  | interrupted _ _ _ fault => .error fault
  | compared _ _ comparisons => .ok (Scalar.le (worstOfBlocks comparisons) tolerance)

/-- The record after a probe of blocks of the given sizes, the worst errors listed up to a cap. -/
def record (cap : Int) (numResiduals : Setting) (sizes tangentSizes : List Setting)
    (before : Record α) : Ending α → Record α
  | refused _ => before
  | faulted _ => (before.reset numResiduals sizes tangentSizes).2
  | pointFailed =>
    { (before.reset numResiduals sizes tangentSizes).2 with log := pointFailure ++ "\n" }
  | interrupted reading progress block fault =>
    let cleared := (before.reset numResiduals sizes tangentSizes).2
    { cleared with
      success := true
      residuals := .vector reading.residuals
      ambient := reading.jacobians
      tangent := progress.tangent ++ cleared.tangent.drop progress.tangent.length
      log := interruptionLog block fault }
  | compared reading progress comparisons =>
    { success := true
      residuals := .vector reading.residuals
      ambient := reading.jacobians
      numericAmbient := progress.numericAmbient
      tangent := progress.tangent
      numericTangent := progress.numericTangent
      worst := worstOfBlocks comparisons
      log := diagnosticLog comparisons cap }

end Ending

end JacobianAudit
