/-
**Real and complex values.**

A power of a negative number is complex unless its exponent is an integer. What was computed from
real numbers alone is kept apart from what has an imaginary part, be it zero, because real
operations round and overflow differently. An operation on values of both kinds is complex.

Main definitions:

* `JacobianAudit.Planar` — something real, or a real and an imaginary part;
* `JacobianAudit.Planar.scale`, `JacobianAudit.Planar.minus`, `JacobianAudit.Planar.dividedBy` — a
  number times an array, the difference of two arrays, and an array divided by a number.
-/

import JacobianAudit.Tensor.Basic

set_option autoImplicit false

namespace JacobianAudit

/-- Something real, or a real and an imaginary part. -/
inductive Planar (β : Type) where
  | real (x : β)
  | complex (re im : β)

namespace Planar

/-- The real part. -/
def re {β : Type} : Planar β → β
  | real x => x
  | complex x _ => x

variable {α : Type} [Scalar α]

/-! ### Numbers -/

/-- Both parts of a number. -/
def coordinates : Planar α → α × α
  | real x => (x, Scalar.zero)
  | complex x y => (x, y)

/-- A number less one. -/
def lessOne : Planar α → Planar α
  | real x => real (x - Scalar.one)
  | complex x y => complex (x - Scalar.one) y

/-! ### Arrays -/

/-- Both parts of an array. -/
def parts : Planar (Tensor α) → Tensor α × Tensor α
  | real t => (t, t.map fun _ => Scalar.zero)
  | complex u v => (u, v)

/-- A complex array, its parts computed from the parts of another one, entry by entry. -/
def mapParts (re im : α → α → α) (t : Planar (Tensor α)) : Except Fault (Planar (Tensor α)) := do
  let (u, v) := t.parts
  return complex (← u.zipWith re v) (← u.zipWith im v)

/-- A number times an array. -/
def scale : Planar α → Planar (Tensor α) → Except Fault (Planar (Tensor α))
  | real x, real t => return real (t.map (x * ·))
  | f, t =>
    let (a, b) := f.coordinates
    t.mapParts (fun x y => a * x - b * y) (fun x y => a * y + b * x)

/-- The difference of two arrays. -/
def minus : Planar (Tensor α) → Planar (Tensor α) → Except Fault (Planar (Tensor α))
  | real s, real t => return real (← s.zipWith (· - ·) t)
  | s, t => do
    let (u, v) := s.parts
    let (x, y) := t.parts
    return complex (← u.zipWith (· - ·) x) (← v.zipWith (· - ·) y)

/-- An array divided by a number. The number is scaled by its larger part, so that squares of its
parts need not be formed. -/
def dividedBy : Planar (Tensor α) → Planar α → Except Fault (Planar (Tensor α))
  | real t, real d => return real (t.map (· / d))
  | t, d =>
    let (a, b) := d.coordinates
    if Scalar.le (Scalar.abs b) (Scalar.abs a) then
      if Scalar.eq a Scalar.zero then
        t.mapParts (fun x _ => x / Scalar.abs a) (fun _ y => y / Scalar.abs a)
      else
        let ratio := b / a
        let unit := Scalar.one / (a + b * ratio)
        t.mapParts (fun x y => (x + y * ratio) * unit) (fun x y => (y - x * ratio) * unit)
    else
      let ratio := a / b
      let unit := Scalar.one / (b + a * ratio)
      t.mapParts (fun x y => (x * ratio + y) * unit) (fun x y => (y * ratio - x) * unit)

end Planar

end JacobianAudit
