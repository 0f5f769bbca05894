/-
**Checking an evaluator's Jacobians.**

A checker compares the Jacobians that an evaluator answers with numeric ones, block by block, in
the tangent spaces of the blocks. A probe does so at one point. It answers whether everything agrees
within a tolerance, logs what it found, and fills in a record if it is given one.

Main definitions:

* `JacobianAudit.Checker` — an evaluator, its blocks and the settings;
* `JacobianAudit.Checker.run` — a probe, up to its ending;
* `JacobianAudit.Checker.probe`, `JacobianAudit.Checker.probeInto` — a probe without and with a
  record;
* `JacobianAudit.probe`, `JacobianAudit.probeInto` — a probe with a checker of its own.
-/

import JacobianAudit.Difference.Estimate
import JacobianAudit.Probe.Ending
import JacobianAudit.Projection

set_option autoImplicit false

namespace JacobianAudit

/-- An evaluator under test, the spaces of its blocks, the settings of numeric differentiation and
the number of entries that a block's fragment of the log shows. -/
structure Checker (σ α : Type) [Scalar α] where
  evaluator : Evaluator σ α
  spaces : List (BlockSpace σ α)
  options : DiffOptions α
  cap : Int

namespace Checker

variable {σ α : Type} [Scalar α]

/-- A checker for an evaluator, if its block sizes, the manifolds and the cap are in order. -/
def make (evaluator : Evaluator σ α) (manifolds : Option (List (Option (Manifold σ α))))
    (options : DiffOptions α) (cap : Setting) : Except Fault (Checker σ α) := do
  let sizes ← readSizes evaluator.blockSizes
  let spaces ← BlockSpace.fitAll manifolds (sizes.map .whole)
  return ⟨evaluator, spaces, options, ← cap.toInt⟩

/-- The sizes of the blocks. -/
def sizes (c : Checker σ α) : List Setting := c.spaces.map (·.size)

/-- The sizes of the blocks' tangent spaces. -/
def tangentSizes (c : Checker σ α) : List Setting := c.spaces.map (·.tangentSize)

/-! ### The stages of a probe -/

/-- The evaluator's answer at the point, with all Jacobians; nothing if it has none. -/
def read (c : Checker σ α) (blocks : List (List α)) : Action σ (Option (Reading α)) := do
  let request := some (blocks.map fun _ => true)
  match ← c.evaluator.evaluate (blocks.map .vector) request with
  | none => return none
  | some answer =>
    let numResiduals := c.evaluator.numResiduals
    let residuals ← Action.ofExcept (readResiduals answer.residuals numResiduals)
    match answer.jacobians with
    | none => throw (.size (.jacobiansMissing blocks.length))
    | some jacobians =>
      if jacobians.length = blocks.length then
        let jacobians ← Action.ofExcept <| (jacobians.zip c.sizes).zipIdx.mapM fun p =>
          readMatrix p.1.1 numResiduals p.1.2 ("Jacobian of block " ++ toString p.2)
        return some ⟨residuals, jacobians⟩
      else throw (.size (.jacobiansMissing blocks.length))

/-- The numeric Jacobians of a block: along its tangent coordinates and, if asked for, along its
entries, which is the same for a block without a manifold. -/
def numeric (c : Checker σ α) (blocks : List (List α)) (residuals : List α) (recording : Bool)
    (k : Nat) (space : BlockSpace σ α) : Action σ (Tensor α × List (Tensor α)) := do
  let along (manifold : Option (Manifold σ α)) : Action σ (Tensor α) :=
    estimate c.evaluator (blocks.map .vector) (.count k) manifold c.options
      (some (.vector residuals))
  let tangent ← along space.manifold
  if !recording then return (tangent, [])
  match space.manifold with
  | none => return (tangent, [tangent])
  | some _ => return (tangent, [← along none])

/-- Projects and differentiates the blocks one after the other, until a fault. -/
def differentiate (c : Checker σ α) (blocks : List (List α)) (reading : Reading α)
    (recording : Bool) :
    List (Nat × BlockSpace σ α × List α × Tensor α) → Progress α →
      Action σ (Progress α × Option (Nat × Fault))
  | [], progress => return (progress, none)
  | (k, space, block, jacobian) :: rest, progress => do
    match ← (project (.array jacobian) space.manifold (.vector block)).attempt with
    | .error fault => return (progress, some (k, fault))
    | .ok tangent =>
      let progress := { progress with tangent := progress.tangent ++ [tangent] }
      match ← (c.numeric blocks reading.residuals recording k space).attempt with
      | .error fault => return (progress, some (k, fault))
      | .ok (numericTangent, numericAmbient) =>
        differentiate c blocks reading recording rest
          { progress with
            numericTangent := progress.numericTangent ++ [numericTangent]
            numericAmbient := progress.numericAmbient ++ numericAmbient }

/-- Compares the blocks' Jacobians. -/
def compare (progress : Progress α) (tolerance : α) : Except Fault (List (BlockComparison α)) :=
  (progress.tangent.zip progress.numericTangent).zipIdx.mapM fun p =>
    compareBlock (.count p.2) (.array p.1.1) (.array p.1.2) tolerance

/-- Logs what a comparison of all blocks found. -/
def logComparison (blocks : Nat) (worst tolerance : α) : Action σ Unit := do
  Action.log .debug ("Probed " ++ toString blocks ++ " parameter block(s): worst relative error " ++
    significantText 3 worst ++ " (tolerance " ++ significantText 3 tolerance ++ ").")
  if !Scalar.le worst tolerance then
    Action.warn ("Gradient check failed: worst relative error " ++ significantText 3 worst ++
      " exceeds " ++ significantText 3 tolerance ++ ".")

/-- The part of a probe that calls the evaluator. -/
def runAt (c : Checker σ α) (blocks : List (List α)) (tolerance : α) (recording : Bool) :
    Action σ (Ending α) := do
  match ← (c.read blocks).attempt with
  | .error fault => return .faulted fault
  | .ok none =>
    Action.warn Ending.pointFailure
    return .pointFailed
  | .ok (some reading) =>
    let todo := ((c.spaces.zip (blocks.zip reading.jacobians)).zipIdx).map fun p =>
      (p.2, p.1.1, p.1.2.1, p.1.2.2)
    match ← c.differentiate blocks reading recording todo {} with
    | (progress, some (k, fault)) =>
      if let .evaluation cause := fault then
        Action.warn (Ending.differentiationFailure k cause)
      return .interrupted reading progress k fault
    | (progress, none) =>
      match compare progress tolerance with
      | .error fault => return .interrupted reading progress blocks.length fault
      | .ok comparisons =>
        logComparison blocks.length (worstOfBlocks comparisons) tolerance
        return .compared reading progress comparisons

/-- A probe at a point, up to its ending. It is refused for a negative tolerance and for parameters
that do not have the declared sizes. -/
def run (c : Checker σ α) (parameters : List (Supplied α)) (tolerance : α) (recording : Bool) :
    Action σ (Ending α) := do
  if !Scalar.le Scalar.zero tolerance then
    return .refused (.argument (.negativePrecision (Scalar.text tolerance)))
  match readBlocks parameters c.sizes with
  | .error fault => return .refused fault
  | .ok blocks =>
    let cleared := (Record.blank (α := α)).reset c.evaluator.numResiduals c.sizes c.tangentSizes
    match cleared.1, recording with
    | .error fault, true => return .faulted fault
    | _, _ => c.runAt blocks tolerance recording

/-! ### Probes -/

/-- Checks the evaluator's Jacobians at a point. -/
def probe (c : Checker σ α) (parameters : List (Supplied α)) (tolerance : α) : Action σ Bool := do
  Action.ofExcept ((← c.run parameters tolerance false).verdict tolerance)

/-- Checks the evaluator's Jacobians at a point and fills in a record. The record is returned
whatever happens. -/
def probeInto (c : Checker σ α) (parameters : List (Supplied α)) (tolerance : α)
    (before : Record α) : Action σ (Except Fault Bool × Record α) := do
  let ending ← c.run parameters tolerance true
  return (ending.verdict tolerance,
    ending.record c.cap c.evaluator.numResiduals c.sizes c.tangentSizes before)

end Checker

variable {σ α : Type} [Scalar α]

/-- Checks an evaluator's Jacobians once. -/
def probe (evaluator : Evaluator σ α) (manifolds : Option (List (Option (Manifold σ α))))
    (parameters : List (Supplied α)) (tolerance : α) (options : DiffOptions α) : Action σ Bool := do
  let c ← Action.ofExcept (Checker.make evaluator manifolds options (.whole defaultCap))
  c.probe parameters tolerance

/-- Checks an evaluator's Jacobians once and fills in a record. -/
def probeInto (evaluator : Evaluator σ α) (manifolds : Option (List (Option (Manifold σ α))))
    (parameters : List (Supplied α)) (tolerance : α) (options : DiffOptions α)
    (before : Record α) : Action σ (Except Fault Bool × Record α) := do
  match Checker.make evaluator manifolds options (.whole defaultCap) with
  | .error fault => return (.error fault, before)
  | .ok c => c.probeInto parameters tolerance before

end JacobianAudit
