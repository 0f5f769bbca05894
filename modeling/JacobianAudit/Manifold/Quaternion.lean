/-
**Unit quaternions.**

A quaternion is the list of its four parts, the real one first. A tangent vector with three entries
is a rotation vector; a step turns it into a unit quaternion by the exponential map and multiplies
from the left, so that the norm of the point does not change.

Main definitions:

* `JacobianAudit.Quaternion` and `JacobianAudit.Quaternion.mul` — the product of quaternions;
* `JacobianAudit.Quaternion.ofLists` — the product of quaternions that are lists of numbers;
* `JacobianAudit.Quaternion.product` — the product of arrays of quaternions;
* `JacobianAudit.Quaternion.plus`, `JacobianAudit.Quaternion.plusJacobian` — the step and its
  derivative at zero.
-/

import JacobianAudit.Tensor.Nested

set_option autoImplicit false

namespace JacobianAudit

/-- The quaternion `w + x i + y j + z k`. -/
structure Quaternion (α : Type) where
  w : α
  x : α
  y : α
  z : α

namespace Quaternion

variable {α : Type} [Scalar α]

/-- The product of two quaternions. -/
def mul (p q : Quaternion α) : Quaternion α where
  w := p.w * q.w - p.x * q.x - p.y * q.y - p.z * q.z
  x := p.w * q.x + p.x * q.w + p.y * q.z - p.z * q.y
  y := p.w * q.y - p.x * q.z + p.y * q.w + p.z * q.x
  z := p.w * q.z + p.x * q.y - p.y * q.x + p.z * q.w

/-- The parts in order. -/
def toList (q : Quaternion α) : List α := [q.w, q.x, q.y, q.z]

/-- The parts with a number in two lists, which have to be there and to be numbers. -/
def partPair (a b : Nested α) (i : Nat) : Except Fault (α × α) := do
  let x ← a.item i
  let y ← b.item i
  return (← x.toNumber, ← y.toNumber)

/-- The product of two quaternions that are lists of numbers. Further items are not looked at. -/
def ofLists (a b : Nested α) : Except Fault (Quaternion α) := do
  let w ← partPair a b 0
  let x ← partPair a b 1
  let y ← partPair a b 2
  let z ← partPair a b 3
  return mul ⟨w.1, x.1, y.1, z.1⟩ ⟨w.2, x.2, y.2, z.2⟩

/-- The rows of the derivative at zero of `δ ↦ exp(δ) q`. -/
def rows (q : Quaternion α) : List (List α) :=
  [[-q.x, -q.y, -q.z], [q.w, q.z, -q.y], [-q.z, q.w, q.x], [q.y, -q.x, q.w]]

/-- The quaternion whose parts stand along the outermost axis of an array, at an inner index. -/
def ofTensor (t : Tensor α) (part : Nat → List Nat) : Quaternion α :=
  ⟨t.get (part 0), t.get (part 1), t.get (part 2), t.get (part 3)⟩

/-- The index of a part, where the array was stretched along its inner axes. -/
def stretchedPart (inner : Shape) (index : List Nat) (part : Nat) : List Nat :=
  part :: Tensor.unstretched inner index

/-- The products of quaternions whose parts stand along the outermost axes of two arrays. Further
entries along these axes are not looked at. Whether parts can be combined is decided on the real
ones, before the others are looked for. -/
def product (a b : Tensor α) : Except Fault (Tensor α) :=
  match a.shape, b.shape with
  | m :: s, n :: t =>
    if m = 0 ∨ n = 0 then throw .entryIndex
    else
      match Shape.broadcast? s t with
      | none => throw (.malformed .unbroadcastable)
      | some inner =>
        if m < 4 ∨ n < 4 then throw .entryIndex
        else
          return .tabulate (4 :: inner) fun
            | part :: index =>
              let p := ofTensor a (stretchedPart s index)
              let q := ofTensor b (stretchedPart t index)
              ((mul p q).toList[part]?).getD Scalar.nan
            | [] => Scalar.nan
  | _, _ => throw .entryIndex

/-- The length of a vector. -/
def norm (v : List α) : α := Scalar.sqrt (Scalar.sum (v.map fun x => x * x))

/-- The three entries of a tangent vector; a single entry is repeated. -/
def rotationVector (delta : Tensor α) : Except Fault (List α) :=
  match delta.shape.dropWhile (· = 1), delta.data with
  | [], [x] => return [x, x, x]
  | [3], entries => return entries
  | _, _ => throw (.malformed .unbroadcastable)

/-- The unit quaternion of a rotation vector of length `n`. -/
def exponential (n : α) (v : List α) : List α :=
  Scalar.cos n :: v.map fun x => Scalar.sin n / n * x

/-- The step `exp(δ) x`. -/
def plus (x delta : Supplied α) : Except Fault (Tensor α) := do
  let x ← x.read
  let delta ← delta.read
  let n := norm delta.data
  if Scalar.eq n Scalar.zero then return x
  let v ← rotationVector delta
  product (.vector (exponential n v)) x

/-- The derivative of the step at zero. It has one axis more than the point. -/
def plusJacobian (x : Supplied α) : Except Fault (Tensor α) := do
  let x ← x.read
  match x.shape with
  | [] => throw .notList
  | n :: inner =>
    if n = 4 then
      if Shape.maxRank < inner.length + 2 then throw (.malformed .tooLarge)
      return .tabulate (4 :: 3 :: inner) fun
        | i :: j :: index =>
          let q := ofTensor x (fun part => part :: index)
          ((q.rows[i]?.bind fun row => row[j]?)).getD Scalar.nan
        | _ => Scalar.nan
    else throw (.malformed .unpacking)

end Quaternion

end JacobianAudit
