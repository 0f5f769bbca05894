/-
**What can go wrong.**

A fault names its cause. Three families are kept apart because callers treat them differently:
sizes that do not agree are a mistake of the caller and always reach him; an evaluation that could
not be carried out only fails the check it was made for; a failed check is reported with its log.

Main definitions:

* `JacobianAudit.SizeFault`, `JacobianAudit.EvaluationFault`, `JacobianAudit.ArgumentFault` — the
  causes that carry an explanation;
* `JacobianAudit.MalformedInput` — the causes that need none;
* `JacobianAudit.Fault` — all of them;
* `JacobianAudit.Fault.message` — the wording.
-/

import JacobianAudit.Quantity
import JacobianAudit.Decimal.Layout
import JacobianAudit.Tensor.Shape

set_option autoImplicit false

namespace JacobianAudit

/-- Declared sizes, arrays and manifolds that do not agree. Declared sizes are given as they are
shown, and so is the number of a block that was asked for by number. -/
inductive SizeFault where
  /-- A Jacobian function answered with a wrong number of blocks. -/
  | jacobianBlocks (returned expected : Nat)
  /-- An evaluator did not answer with one Jacobian per block. -/
  | jacobiansMissing (expected : Nat)
  /-- Two Jacobians of different shapes were to be compared. -/
  | shapesDiffer (analytic numeric : Shape)
  /-- A manifold does not fit the block it is to perturb. -/
  | manifoldUnfit (ambient : String) (block : String) (size : Nat)
  /-- A manifold's step changed the number of entries. -/
  | plusSize (returned : Nat) (block : String) (expected : Nat)
  /-- A Jacobian to be projected is not a matrix. -/
  | notMatrix (shape : Shape)
  /-- A Jacobian to be projected has a wrong number of columns. -/
  | columns (found : Nat) (ambient : String)
  /-- A wrong number of parameter blocks. -/
  | blockCount (expected given : Nat)
  /-- A parameter block of a wrong size. -/
  | blockSize (block : Nat) (size : Nat) (declared : String)
  /-- No parameter block is declared. -/
  | noBlocks
  /-- A declared size is not positive. -/
  | blockNotPositive (block : Nat) (size : Int)
  /-- A wrong number of manifolds. -/
  | manifoldCount (given blocks : Nat)
  /-- A manifold's ambient size is not its block's. -/
  | manifoldAmbient (block : Nat) (ambient size : String)
  /-- A manifold's tangent space is larger than its ambient space, or negative. -/
  | manifoldTangent (block : Nat) (tangent ambient : String)
  /-- A wrong number of residuals. -/
  | residualCount (returned : Nat) (declared : String)
  /-- A matrix of a wrong shape. -/
  | matrixShape (name : String) (shape : Shape) (rows cols : String)
  deriving DecidableEq

/-- An evaluator or a manifold reported that it could not compute a value. A block is given as it is
shown. -/
inductive EvaluationFault where
  /-- The residuals at the point itself. -/
  | residuals
  /-- The step of a manifold. -/
  | plus (block : String) (coordinate : Nat)
  /-- The residuals after a step. -/
  | perturbed (block : String) (coordinate : Nat) (step : Quantity)
  /-- The derivative of a manifold's step. -/
  | plusJacobian (manifold : String)
  deriving DecidableEq

/-- A setting or an argument that is refused. Numbers are given as they are shown. -/
inductive ArgumentFault where
  | negativePrecision (shown : String)
  | notPositive (setting shown : String)
  | tooFewLevels
  | shrinkFactor
  | sizeNotPositive (shown : String)
  | repeatedConstants
  | constantsOutside (size : Int) (constants : List Int)
  | matrixRank (rank : Nat)
  | matrixTooWide (shape : Shape)
  | tooFewValues
  deriving DecidableEq

/-- Input that cannot be read or combined. -/
inductive MalformedInput where
  /-- Nested lists whose lengths or depths differ. -/
  | ragged
  /-- Shapes that cannot be stretched to a common one, or not into their target. -/
  | unbroadcastable
  /-- An array with a negative extent. -/
  | negativeExtent
  /-- An array whose extents are too large, or that has too many axes. -/
  | tooLarge
  /-- A difference scheme of another name. -/
  | scheme
  /-- A text that is no numeral, or a number that has no integer part. -/
  | numeral
  /-- A row or a column that is no integer. -/
  | place
  /-- Something that has to have so many parts, such as the shape of a matrix, and has not. -/
  | unpacking
  deriving DecidableEq

/-- Everything that can interrupt a computation. -/
inductive Fault where
  | size (cause : SizeFault)
  | evaluation (cause : EvaluationFault)
  | argument (cause : ArgumentFault)
  | malformed (cause : MalformedInput)
  /-- Checks on behalf of a driver failed; the log says which. -/
  | checksFailed (log : String)
  /-- Jacobians were asked of an evaluator that has no function for them. -/
  | noJacobian
  /-- A parameter block that does not exist was to be differentiated. The index is given as it is
  shown. -/
  | blockIndex (index : String) (count : Nat)
  /-- An entry that does not exist was read. -/
  | entryIndex
  /-- A value that denotes no integer, or is none, was given where one is needed. -/
  | notNumeric
  /-- A number on its own was given where a list is needed. -/
  | notList
  /-- A setting of a name that no setting has. -/
  | unknownSetting
  /-- A result is too large. -/
  | overflow
  /-- An array is larger than any memory. -/
  | memory
  /-- Zero was raised to a negative power. -/
  | zeroDivision
  /-- A caller's task failed with a message of its own. -/
  | task (message : String)
  deriving DecidableEq

/-! ### Wording -/

namespace SizeFault

/-- The wording of a disagreement between sizes. -/
def message : SizeFault → String
  | jacobianBlocks returned expected =>
    s!"jacobian returned {returned} blocks; expected {expected}."
  | jacobiansMissing expected =>
    s!"Evaluator must return {expected} Jacobians when all are requested."
  | shapesDiffer analytic numeric =>
    "Analytic Jacobian shape " ++ analytic.text ++ " differs from numeric shape " ++
      numeric.text ++ "."
  | manifoldUnfit ambient block size =>
    s!"Manifold ambient size {ambient} does not match block {block} of size {size}."
  | plusSize returned block expected =>
    s!"Manifold plus returned {returned} entries for block {block}; expected {expected}."
  | notMatrix shape => "ambient_jacobian must be 2D; got shape " ++ shape.text ++ "."
  | columns found ambient =>
    s!"ambient_jacobian has {found} columns; manifold ambient size is {ambient}."
  | blockCount expected given => s!"Expected {expected} parameter blocks, got {given}."
  | blockSize block size declared =>
    s!"Parameter block {block} has size {size}; evaluator declares {declared}."
  | noBlocks => "Evaluator declares no parameter blocks."
  | blockNotPositive block size => s!"Parameter block {block} has non-positive size {size}."
  | manifoldCount given blocks => s!"Got {given} manifolds for {blocks} parameter blocks."
  | manifoldAmbient block ambient size =>
    s!"Manifold for block {block} has ambient size {ambient}; parameter block has size {size}."
  | manifoldTangent block tangent ambient =>
    s!"Manifold for block {block} has tangent size {tangent}, outside [0, {ambient}]."
  | residualCount returned declared =>
    s!"Evaluator returned {returned} residuals; it declares {declared}."
  | matrixShape name shape rows cols =>
    name ++ " has shape " ++ shape.text ++ "; expected " ++ Shape.tuple [rows, cols] ++ "."

end SizeFault

namespace EvaluationFault

/-- The wording of a value that could not be computed. -/
def message : EvaluationFault → String
  | residuals => "Residual evaluation failed."
  | plus block coordinate =>
    s!"Manifold plus failed for block {block}, tangent coordinate {coordinate}."
  | perturbed block coordinate step =>
    s!"Evaluation failed with block {block}, tangent coordinate {coordinate} perturbed by " ++
      Decimal.general 6 step ++ "."
  | plusJacobian manifold => "plus_jacobian failed for " ++ manifold ++ "."

end EvaluationFault

namespace ArgumentFault

/-- The wording of a refused argument. -/
def message : ArgumentFault → String
  | negativePrecision shown => "relative_precision must be non-negative; got " ++ shown ++ "."
  | notPositive setting shown => setting ++ " must be positive; got " ++ shown ++ "."
  | tooFewLevels => "ridders_max_extrapolations must be at least 2."
  | shrinkFactor => "ridders_shrink_factor must be greater than 1."
  | sizeNotPositive shown => "size must be positive; got " ++ shown ++ "."
  | repeatedConstants => "constant_parameters contains duplicate indices."
  | constantsOutside size constants =>
    s!"constant_parameters must lie in [0, {size}); got [" ++
      ", ".intercalate (constants.map toString) ++ "]."
  | matrixRank rank => s!"matrix must be 2D; got ndim={rank}."
  | matrixTooWide shape =>
    "matrix must have at most as many columns as rows; got shape " ++ shape.text ++ "."
  | tooFewValues => "richardson_extrapolate requires at least two base values."

end ArgumentFault

namespace Fault

/-- The explanation of a fault, for the causes that have one. -/
def message : Fault → Option String
  | size cause => some cause.message
  | evaluation cause => some cause.message
  | argument cause => some cause.message
  | checksFailed log => some log
  | noJacobian => some "Jacobians were requested but no jacobian callable was given."
  | blockIndex index count => some s!"block_index {index} out of range for {count} blocks."
  | task text => some text
  | malformed _ | entryIndex | notNumeric | notList | unknownSetting | overflow | memory
  | zeroDivision => none

end Fault

end JacobianAudit
