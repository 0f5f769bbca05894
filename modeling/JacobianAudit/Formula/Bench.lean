/-
**Evaluators and manifolds from formulas.**

Formulas are evaluated on a bench, which has dials that they refer to and that callers turn. The
bench also keeps how often each evaluator was asked for residuals and for Jacobians, and at which
points.

Main definitions:

* `JacobianAudit.Bench` — the state that formulas are evaluated in;
* `JacobianAudit.FunctionFormula` — residuals and Jacobians as formulas;
* `JacobianAudit.FunctionFormula.functions` — as functions whose answers are checked;
* `JacobianAudit.FunctionFormula.direct` — as an evaluator whose answers are not;
* `JacobianAudit.ManifoldFormula.manifold` — a manifold from formulas.
-/

import JacobianAudit.Evaluator.Functions
import JacobianAudit.Formula.Expression

set_option autoImplicit false

namespace JacobianAudit

/-- How often an evaluator was asked. -/
structure Calls where
  residuals : Nat := 0
  jacobians : Nat := 0
  deriving DecidableEq

/-- The state that formulas are evaluated in. -/
structure Bench (α : Type) where
  dials : List α
  calls : List Calls
  /-- The points at which residuals were asked for, oldest first. -/
  visited : List (List (List α)) := []

namespace Bench

variable {α : Type}

/-- Turns a dial, which has to exist. A negative number counts from the end. -/
def turn (b : Bench α) (dial : Int) (x : α) : Except Fault (Bench α) := do
  return { b with dials := b.dials.set (← placeOf b.dials dial) x }

/-- Counts a question for residuals. -/
def countResiduals (b : Bench α) (slot : Nat) : Bench α :=
  { b with calls := b.calls.modify slot fun c => { c with residuals := c.residuals + 1 } }

/-- Counts a question for Jacobians. -/
def countJacobians (b : Bench α) (slot : Nat) : Bench α :=
  { b with calls := b.calls.modify slot fun c => { c with jacobians := c.jacobians + 1 } }

/-- Notes a point at which residuals were asked for. -/
def visit (b : Bench α) (point : List (List α)) : Bench α :=
  { b with visited := b.visited ++ [point] }

variable [Scalar α]

/-- Supplied arrays as vectors, together with the settings of the dials. -/
def scope (arrays : List (Supplied α)) : Action (Bench α) (Scope α) := do
  let vectors ← Action.ofExcept (arrays.mapM Supplied.entries)
  return ⟨vectors, (← get).shared.dials⟩

end Bench

/-- The Jacobian part of a formula. -/
inductive JacobianFormula (α : Type) where
  /-- There is no Jacobian function. -/
  | absent
  /-- There is one, and it always declines. -/
  | declines
  /-- One matrix per block. -/
  | blocks (trees : List (Tree α))

/-- Residuals and Jacobians as formulas. -/
structure FunctionFormula (α : Type) where
  residuals : Tree α
  jacobian : JacobianFormula α

namespace FunctionFormula

variable {α : Type} [Scalar α]

/-- Asks for residuals: the question is counted and the point noted. -/
def ask (slot : Nat) (parameters : List (Supplied α)) : Action (Bench α) (Scope α) := do
  Action.modifyShared fun b => ((), b.countResiduals slot)
  let scope ← Bench.scope parameters
  Action.modifyShared fun b => ((), b.visit scope.vectors)
  return scope

/-- The residual function. -/
def function (f : FunctionFormula α) (slot : Nat) (parameters : List (Supplied α)) :
    Action (Bench α) (Supplied α) := do
  let scope ← ask slot parameters
  Action.ofExcept (f.residuals.supplied scope)

/-- The values of all blocks; none if one of them declines. -/
def blockValues (trees : List (Tree α)) (scope : Scope α) :
    Except Fault (Option (List (Supplied α))) :=
  match trees.mapM fun tree => tree.eval scope with
  | .ok values => .ok (some values)
  | .error .declined => .ok none
  | .error (.faulted fault) => .error fault

/-- The Jacobian function, if there is one. -/
def jacobianFunction (f : FunctionFormula α) (slot : Nat) :
    Option (List (Supplied α) → Action (Bench α) (Option (List (Supplied α)))) :=
  match f.jacobian with
  | .absent => none
  | .declines => some fun _ => do
    Action.modifyShared fun b => ((), b.countJacobians slot)
    return none
  | .blocks trees => some fun parameters => do
    Action.modifyShared fun b => ((), b.countJacobians slot)
    Action.ofExcept (blockValues trees (← Bench.scope parameters))

/-- The formulas as functions, with sizes that were written as settings. -/
def functions (f : FunctionFormula α) (slot : Nat) (sizes : List Setting)
    (numResiduals : Setting) : Except Fault (Functions (Bench α) α) :=
  Functions.ofSettings (f.function slot) sizes numResiduals (f.jacobianFunction slot)

/-- The values of the blocks that a request asks for. A block beyond the request is evaluated. -/
def requestedValues (trees : List (Tree α)) (mask : List Bool) (scope : Scope α) :
    Except NoValue (List (Supplied α)) :=
  trees.zipIdx.mapM fun p => if mask[p.2]?.getD true then p.1.eval scope else return .nothing

/-- Answers a request without any check. There is no answer where a formula declines. -/
def answer (f : FunctionFormula α) (slot : Nat) (parameters : List (Supplied α))
    (request : Option (List Bool)) : Action (Bench α) (Option (Answer α)) := do
  let scope ← ask slot parameters
  match f.residuals.eval scope with
  | .error (.faulted fault) => throw fault
  | .error .declined => return none
  | .ok .nothing => return none
  | .ok residuals =>
    match request, f.jacobian with
    | some mask, .blocks trees =>
      Action.modifyShared fun b => ((), b.countJacobians slot)
      match requestedValues trees mask scope with
      | .error (.faulted fault) => throw fault
      | .error .declined => return none
      | .ok jacobians => return some ⟨residuals, some jacobians⟩
    | _, _ => return some ⟨residuals, none⟩

/-- The formulas as an evaluator whose answers are taken as they are. -/
def direct (f : FunctionFormula α) (slot : Nat) (blockSizes : List Setting)
    (numResiduals : Setting) : Evaluator (Bench α) α :=
  ⟨blockSizes, numResiduals, f.answer slot⟩

end FunctionFormula

/-- A manifold as formulas: its step from a point and a tangent vector, and the derivative of the
step from a point. -/
structure ManifoldFormula (α : Type) where
  name : String
  ambientSize : Setting
  tangentSize : Setting
  plus : Tree α
  plusJacobian : Tree α

/-- The manifold that formulas describe. -/
def ManifoldFormula.manifold {α : Type} [Scalar α] (f : ManifoldFormula α) :
    Manifold (Bench α) α :=
  .custom {
    name := f.name
    ambientSize := f.ambientSize
    tangentSize := f.tangentSize
    plus := fun x delta => do Action.ofExcept (f.plus.supplied (← Bench.scope [x, delta]))
    plusJacobian := fun x => do Action.ofExcept (f.plusJacobian.supplied (← Bench.scope [x])) }

end JacobianAudit
