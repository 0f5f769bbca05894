/-
**Evaluators.**

An evaluator computes a vector of residuals from a list of parameter blocks and, on request, the
derivative of the residuals with respect to each block. It declares the sizes of both, which are
kept as they were written, and reports a point at which it has no value by answering with nothing.
It belongs to a caller: what it answers is checked where it is used.

Main definitions:

* `JacobianAudit.Answer` — what an evaluator answers at a point;
* `JacobianAudit.Evaluator` — the interface;
* `JacobianAudit.Evaluator.beside` — an evaluator in a larger state, of which it sees its own part.
-/

import JacobianAudit.Action
import JacobianAudit.Tensor.Nested

set_option autoImplicit false

namespace JacobianAudit

/-- What an evaluator answers at a point. Where Jacobians were requested there is one entry per
block, and nothing for a block that was not asked for. -/
structure Answer (α : Type) where
  residuals : Supplied α
  jacobians : Option (List (Supplied α))

/-- Residuals with optional Jacobians, as a function of parameter blocks. The request is one
Boolean per block, or none to leave all Jacobians out. -/
structure Evaluator (σ α : Type) where
  blockSizes : List Setting
  numResiduals : Setting
  evaluate : List (Supplied α) → Option (List Bool) → Action σ (Option (Answer α))

/-- An evaluator in a larger state, of which it sees and changes the first part only. -/
def Evaluator.beside {σ ρ α : Type} (e : Evaluator σ α) : Evaluator (σ × ρ) α where
  blockSizes := e.blockSizes
  numResiduals := e.numResiduals
  evaluate parameters request := (e.evaluate parameters request).beside

end JacobianAudit
