/-
**Projection onto the tangent space.**

By the chain rule the derivative of the residuals along a manifold's tangent coordinates is the
Jacobian with respect to the block's entries, times the derivative of the manifold's step at zero.

Main definitions:

* `JacobianAudit.stepJacobian` — the derivative of a manifold's step, checked;
* `JacobianAudit.project` — the Jacobian along the tangent coordinates.
-/

import JacobianAudit.Evaluator.Sizes

set_option autoImplicit false

namespace JacobianAudit

variable {σ α : Type} [Scalar α]

/-- The derivative of a manifold's step at a point, as a matrix of the declared shape. -/
def stepJacobian (m : Manifold σ α) (point : Supplied α) : Action σ (Tensor α) := do
  let x ← Action.ofExcept point.read
  match ← m.plusJacobian (.array x) with
  | .nothing => throw (.evaluation (.plusJacobian m.shown))
  | reply => Action.ofExcept (readMatrix reply m.ambientSize m.tangentSize "plus_jacobian")

/-- The Jacobian along the tangent coordinates of a block. Without a manifold it is the Jacobian
itself. -/
def project (jacobian : Supplied α) (manifold : Option (Manifold σ α)) (point : Supplied α) :
    Action σ (Tensor α) := do
  let j ← Action.ofExcept jacobian.read
  match j.shape with
  | [rows, cols] =>
    match manifold with
    | none => return j
    | some m =>
      if m.ambientSize.equals (.count cols) then
        let step ← stepJacobian m point
        return j.matmul rows cols step.columns step
      else throw (.size (.columns cols m.ambientSize.shown))
  | shape => throw (.size (.notMatrix shape))

end JacobianAudit
