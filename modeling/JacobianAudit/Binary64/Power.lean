/-
**Powers of binary64 numbers.**

An exponent is a binary64 number as well: an integer stands for the one nearest to it, which has to
be finite. The power of a finite number is enclosed more and more closely until its rounding is
settled. Infinities and what is not a number have the powers that limits give them. Three powers
are no binary64 numbers: one that is too large for the format although the number is finite, zero's
with a negative exponent, and a negative number's if the exponent is not an integer. The last one
is a complex number: the power of the magnitude, turned by as many half turns as the exponent says.

Main definitions:

* `JacobianAudit.Binary64.Exponent` — an exponent as a fraction;
* `JacobianAudit.Binary64.raise` — the correctly rounded power, or why there is none;
* `JacobianAudit.Binary64.power` — the power with an integer as the exponent;
* `JacobianAudit.Binary64.raisePlanar` — the power, be it real or complex;
* `JacobianAudit.Binary64.powerOf` — the power with an exponent that was written as a setting.
-/

import JacobianAudit.Binary64.Circular
import JacobianAudit.Binary64.Enclosure
import JacobianAudit.Planar
import JacobianAudit.Setting

set_option autoImplicit false

namespace JacobianAudit.Binary64

/-- The exponent `num / 2 ^ halvings` with its sign, in lowest terms. -/
structure Exponent where
  negative : Bool
  num : Nat
  halvings : Nat

namespace Exponent

/-- A fraction whose denominator is a power of two. -/
def ofFraction (negative : Bool) (num den : Nat) : Exponent :=
  ⟨negative, num / Nat.gcd num den, (den / Nat.gcd num den).log2⟩

/-- An odd integer. -/
def isOdd (y : Exponent) : Bool := y.halvings == 0 && y.num % 2 == 1

/-- The numbers of bits that are tried. Each multiplication may lose a bit's worth, and squaring
doubles what was lost before, so a large exponent asks for more. -/
def precisions (y : Exponent) : List Nat := [1, 2, 4, 8, 16].map fun k => 96 * k + 2 * y.num.log2

/-- The power `(m × 2 ^ q) ^ y` to a number of bits. -/
def enclose (y : Exponent) (m : Nat) (q : Int) (bits : Nat) : Enclosure :=
  let whole := (Enclosure.exact m q).power bits y.num
  let magnitude := (List.range y.halvings).foldl (fun e _ => e.sqrt bits) whole
  if y.negative then magnitude.reciprocal bits else magnitude

/-- The power `(m × 2 ^ q) ^ y`, rounded once; an infinity if it is too large. -/
def rounded (y : Exponent) (negative : Bool) (m : Nat) (q : Int) : Float :=
  match y.precisions.findSome? fun bits => (y.enclose m q bits).settled? negative with
  | some x => x
  | none =>
    let e := y.enclose m q (1600 + 2 * y.num.log2)
    nearestBinary negative e.low e.exponent

end Exponent

/-- Infinity. -/
def infinity (negative : Bool) : Float := if negative then -(1.0 / 0.0) else 1.0 / 0.0

/-- The power with an infinite exponent: the limit of the powers of a magnitude. -/
def limit (x : Float) (negative : Bool) : Float :=
  match quantity x with
  | .nan => x
  | .infinite _ => if negative then 0.0 else infinity false
  | .finite _ num den =>
    if num = den then 1.0
    else if decide (den < num) == negative then 0.0 else infinity false

/-- The power of `x` with a finite exponent other than zero, rounded once. -/
def raiseFinite (x : Float) (y : Exponent) : Except Fault Float :=
  match x.toModel.unpack with
  | .notANumber => .ok x
  | .infinity sign =>
    let negative := sign == .negative && y.isOdd
    .ok (if y.negative then nearest negative 0 1 else infinity negative)
  | .zero sign =>
    if y.negative then .error .zeroDivision
    else .ok (nearest (sign == .negative && y.isOdd) 0 1)
  | .finite sign m q _ =>
    if sign == .negative && y.halvings != 0 then .error .notNumeric
    else
      let z := y.rounded (sign == .negative && y.isOdd) m q
      if z.isFinite then .ok z else .error .overflow

/-- The power `x ^ y`, rounded once. -/
def raise (x y : Float) : Except Fault Float :=
  match quantity y with
  | .nan => .ok (if x == 1.0 then x else y)
  | .infinite negative => .ok (limit x negative)
  | .finite negative num den =>
    if num = 0 then .ok 1.0 else raiseFinite x (.ofFraction negative num den)

/-- The power `x ^ n`, rounded once. -/
def power (x : Float) (n : Int) : Except Fault Float := do raise x (← Setting.toReal n)

/-! ### Complex powers -/

/-- Half a turn, as an angle. -/
def halfTurn : Float := 3.141592653589793

/-- A negative number and an exponent that is not an integer. -/
def leavesLine (x y : Float) : Bool :=
  match quantity x, quantity y with
  | .finite negative num _, .finite _ n d => negative && num != 0 && n % d != 0
  | _, _ => false

/-- The power of a negative number `-x`, by the power of `x` and an angle. -/
def turned (x y : Float) : Except Fault (Planar Float) := do
  let length ← raise x y
  let angle := halfTurn * y
  return .complex (length * cos angle) (length * sin angle)

/-- The power `x ^ y`. -/
def raisePlanar (x y : Float) : Except Fault (Planar Float) :=
  if leavesLine x y then turned (-x) y else (raise x y).map .real

/-- The power with an exponent that was written as a setting and has to be a number. -/
def powerOf (x : Float) (exponent : Setting) : Except Fault (Planar Float) :=
  match exponent with
  | .real y => raisePlanar x y
  | _ => do return .real (← power x (← exponent.index))

example : (power 2.0 10).toOption = some 1024.0 ∧ (power 10.0 (-1)).toOption = some 0.1 := by
  decide +kernel
example : (raise 2.25 1.5).toOption = some 3.375 ∧ (raise 4.0 (-0.5)).toOption = some 0.5 := by
  decide +kernel

end JacobianAudit.Binary64
