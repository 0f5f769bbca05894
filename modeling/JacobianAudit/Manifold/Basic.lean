/-
**Manifolds.**

A manifold parameterizes the neighbourhood of a point: it maps a tangent vector to a new point, and
knows the derivative of that map at zero. Four manifolds come with the library; callers may supply
others, which may decline to answer at a point and whose answers are taken as they are.

Main definitions:

* `JacobianAudit.CustomManifold` — a manifold of a caller;
* `JacobianAudit.Manifold` — all manifolds;
* `JacobianAudit.Manifold.plus`, `JacobianAudit.Manifold.plusJacobian` — the step and its
  derivative.
-/

import JacobianAudit.Action
import JacobianAudit.Manifold.Flat
import JacobianAudit.Manifold.Subset
import JacobianAudit.Manifold.Quaternion

set_option autoImplicit false

namespace JacobianAudit

/-- A manifold of a caller. Its sizes are kept as they were written. Answering with nothing means
that there is no value at the point. -/
structure CustomManifold (σ α : Type) where
  name : String
  ambientSize : Setting
  tangentSize : Setting
  plus : Supplied α → Supplied α → Action σ (Supplied α)
  plusJacobian : Supplied α → Action σ (Supplied α)

/-- How a parameter block is perturbed. -/
inductive Manifold (σ α : Type) where
  | euclidean (space : Euclidean)
  | subset (space : Subset)
  | quaternion
  | linear (map : LinearMap α)
  | custom (manifold : CustomManifold σ α)

namespace Manifold

variable {σ α : Type}

/-- The number of entries of a point. -/
def ambientSize : Manifold σ α → Setting
  | euclidean space => .count space.size
  | subset space => .count space.size
  | quaternion => .count 4
  | linear map => .count map.rows
  | custom manifold => manifold.ambientSize

/-- The number of entries of a tangent vector. -/
def tangentSize : Manifold σ α → Setting
  | euclidean space => .count space.size
  | subset space => .count space.free.length
  | quaternion => .count 3
  | linear map => .count map.cols
  | custom manifold => manifold.tangentSize

/-- The kind of manifold, as messages name it. -/
def name : Manifold σ α → String
  | euclidean _ => "EuclideanManifold"
  | subset _ => "SubsetManifold"
  | quaternion => "QuaternionManifold"
  | linear _ => "LinearManifold"
  | custom manifold => manifold.name

/-- The manifold, as messages show it. -/
def shown (m : Manifold σ α) : String :=
  m.name ++ "(ambient_size=" ++ m.ambientSize.shown ++ ", tangent_size=" ++
    m.tangentSize.shown ++ ")"

/-- A manifold in a larger state, of which it sees and changes the first part only. -/
def beside {ρ : Type} : Manifold σ α → Manifold (σ × ρ) α
  | euclidean space => .euclidean space
  | subset space => .subset space
  | quaternion => .quaternion
  | linear map => .linear map
  | custom manifold =>
    .custom {
      name := manifold.name
      ambientSize := manifold.ambientSize
      tangentSize := manifold.tangentSize
      plus := fun x delta => (manifold.plus x delta).beside
      plusJacobian := fun x => (manifold.plusJacobian x).beside }

variable [Scalar α]

/-- The point that a tangent vector leads to. -/
def plus (m : Manifold σ α) (x delta : Supplied α) : Action σ (Supplied α) :=
  match m with
  | euclidean _ => .ofExcept ((Euclidean.plus x delta).map .array)
  | subset space => .ofExcept ((space.plus x delta).map .array)
  | quaternion => .ofExcept ((Quaternion.plus x delta).map .array)
  | linear map => .ofExcept ((map.plus x delta).map .array)
  | custom manifold => manifold.plus x delta

/-- The derivative of the step at zero. -/
def plusJacobian (m : Manifold σ α) (x : Supplied α) : Action σ (Supplied α) :=
  match m with
  | euclidean space => .ofExcept (space.plusJacobian.map .array)
  | subset space => .ofExcept (space.plusJacobian.map .array)
  | quaternion => .ofExcept ((Quaternion.plusJacobian x).map .array)
  | linear map => pure (.array map.matrix)
  | custom manifold => manifold.plusJacobian x

end Manifold

end JacobianAudit
