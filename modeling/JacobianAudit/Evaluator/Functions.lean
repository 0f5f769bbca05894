/-
**Evaluators from functions.**

An evaluator may be put together from a residual function and, optionally, a Jacobian function that
answers for all blocks at once. The arrays they answer with are checked against the declared sizes.
Residuals that are not all finite count as a point without a value.

Main definitions:

* `JacobianAudit.Functions` — the functions and the sizes they declare;
* `JacobianAudit.Functions.evaluate` — their answer to a request;
* `JacobianAudit.Functions.toEvaluator` — the evaluator.
-/

import JacobianAudit.Evaluator.Sizes

set_option autoImplicit false

namespace JacobianAudit

/-- A residual function, perhaps a Jacobian function, and declared sizes. -/
structure Functions (σ α : Type) where
  /-- The residuals, or nothing where there are none. -/
  function : List (Supplied α) → Action σ (Supplied α)
  /-- One matrix per block, or nothing where there are none. -/
  jacobian : Option (List (Supplied α) → Action σ (Option (List (Supplied α))))
  blockSizes : List Int
  numResiduals : Int

namespace Functions

variable {σ α : Type}

/-- Functions with sizes that were written as settings. -/
def ofSettings (function : List (Supplied α) → Action σ (Supplied α)) (sizes : List Setting)
    (numResiduals : Setting)
    (jacobian : Option (List (Supplied α) → Action σ (Option (List (Supplied α))))) :
    Except Fault (Functions σ α) := do
  let blockSizes ← readSizes sizes
  return ⟨function, jacobian, blockSizes, ← numResiduals.toInt⟩

variable [Scalar α]

/-- The requested Jacobians of a full answer. -/
def selectJacobians (f : Functions σ α) (mask : List Bool) (full : List (Supplied α)) :
    Except Fault (List (Supplied α)) :=
  ((mask.zip f.blockSizes).zip full).zipIdx.mapM fun p =>
    if p.1.1.1 then
      return .array (← readMatrix p.1.2 (.whole f.numResiduals) (.whole p.1.1.2)
        ("jacobian[" ++ toString p.2 ++ "]"))
    else return .nothing

/-- Residuals at a point, checked; nothing where there are none or where some are not finite. -/
def residuals (f : Functions σ α) (parameters : List (Supplied α)) :
    Action σ (Option (List α)) := do
  let values ← f.function parameters
  if values.isNothing then return none
  let residuals ← Action.ofExcept (readResiduals values (.whole f.numResiduals))
  if residuals.all Scalar.isFinite then return some residuals
  Action.warn "Non-finite residuals; treating evaluation as failed."
  return none

/-- Requested Jacobians at a point, checked; nothing where there are none. -/
def jacobians (f : Functions σ α) (parameters : List (Supplied α)) (mask : List Bool) :
    Action σ (Option (List (Supplied α))) := do
  match f.jacobian with
  | none => throw .noJacobian
  | some jacobian =>
    match ← jacobian parameters with
    | none => return none
    | some full =>
      if full.length = f.blockSizes.length then
        return some (← Action.ofExcept (f.selectJacobians mask full))
      else throw (.size (.jacobianBlocks full.length f.blockSizes.length))

/-- The answer to a request. The Jacobian function is called only if the residuals are usable and
some Jacobian is requested. -/
def evaluate (f : Functions σ α) (parameters : List (Supplied α)) (request : Option (List Bool)) :
    Action σ (Option (Answer α)) := do
  match ← f.residuals parameters with
  | none => return none
  | some residuals =>
    match request with
    | none => return some ⟨.vector residuals, none⟩
    | some mask =>
      if mask.any id then
        match ← f.jacobians parameters mask with
        | none => return none
        | some jacobians => return some ⟨.vector residuals, some jacobians⟩
      else return some ⟨.vector residuals, none⟩

/-- The evaluator that answers with the functions' values. -/
def toEvaluator (f : Functions σ α) : Evaluator σ α where
  blockSizes := f.blockSizes.map .whole
  numResiduals := .whole f.numResiduals
  evaluate := f.evaluate

end Functions

end JacobianAudit
