/-
**Sine and cosine of binary64 numbers, correctly rounded.**

The argument is reduced by a multiple of a right angle and the two functions are summed as power
series, all in integers that count units of `2 ^ -p`. The result is known up to a bound on the
error. If both ends of that interval round to the same binary64 number, that number is the answer;
otherwise the computation is repeated with a finer unit.

Main definitions:

* `JacobianAudit.Binary64.rightAngle` — a right angle in units of `2 ^ -p`;
* `JacobianAudit.Binary64.reduce` — an argument as a number of right angles and a rest;
* `JacobianAudit.Binary64.sin`, `JacobianAudit.Binary64.cos` — the functions.
-/

import JacobianAudit.Binary64.Rounding

set_option autoImplicit false

namespace JacobianAudit.Binary64

open Decimal (twoTo)

/-! ### The right angle -/

/-- The series `u - u / (3 n²) + u / (5 n⁴) - …`, where `t` is the current power without its odd
divisor `k`. -/
def arctangentSeries (n : Nat) : Nat → Int → Nat → Int
  | 0, _, _ => 0
  | steps + 1, t, k => t / k - arctangentSeries n steps (t / (n * n)) (k + 2)

/-- The angle whose tangent is `1 / n`, in units of `2 ^ -p`. -/
def arctangent (n p : Nat) : Int := arctangentSeries n (p / 2 + 4) (twoTo p / n : Nat) 1

/-- A right angle in units of `2 ^ -p`, from the angles with tangents `1 / 5` and `1 / 239`. -/
def rightAngle (p : Nat) : Int :=
  (8 * arctangent 5 (p + 32) - 2 * arctangent 239 (p + 32)) / twoTo 32

/-- The positive argument `m × 2 ^ q` as a number of right angles, counted modulo four, and a rest
of at most half a right angle, in units of `2 ^ -p`. -/
def reduce (m : Nat) (q : Int) (p : Nat) : Nat × Int :=
  let whole := ((m.log2 : Int) + q + 1).toNat
  let fine := p + whole + 8
  let angle := rightAngle fine
  let shift := q + fine
  let argument : Int := if 0 ≤ shift then m * twoTo shift.toNat else m / twoTo (-shift).toNat
  let turns := (2 * argument + angle) / (2 * angle)
  ((turns % 4).toNat, (argument - turns * angle) / twoTo (whole + 8))

/-! ### The power series -/

/-- The series `t - t x² / (k (k + 1)) + …` in units of `2 ^ -p`, for the square of the
argument. -/
def alternatingSeries (square : Int) (p : Nat) : Nat → Int → Nat → Int
  | 0, _, _ => 0
  | steps + 1, t, k =>
    t - alternatingSeries square p steps (t * square / twoTo p / (k * (k + 1))) (k + 2)

/-- The sine of a rest. -/
def restSin (r : Int) (p : Nat) : Int := alternatingSeries (r * r / twoTo p) p (p / 8 + 16) r 2

/-- The cosine of a rest. -/
def restCos (r : Int) (p : Nat) : Int :=
  alternatingSeries (r * r / twoTo p) p (p / 8 + 16) (twoTo p) 1

/-- The sine of an argument that is `turns` right angles and the rest `r`. -/
def turnedSin (turns : Nat) (r : Int) (p : Nat) : Int :=
  match turns with
  | 0 => restSin r p
  | 1 => restCos r p
  | 2 => -restSin r p
  | _ => -restCos r p

/-! ### Rounding -/

/-- A bound on the error of a value, in its own units: far above what the divisions of the two
series and of the reduction can lose. -/
def errorBound : Int := 1048576

/-- The binary64 number nearest to a value in units of `2 ^ -p`. -/
def nearestFixed (v : Int) (p : Nat) : Float := nearest (v < 0) v.natAbs (twoTo p)

/-- The number to which every value within the error bound rounds, if there is one. -/
def settled? (v : Int) (p : Nat) : Option Float :=
  let low := nearestFixed (v - errorBound) p
  let high := nearestFixed (v + errorBound) p
  if low.toBits = high.toBits then some low else none

/-- The units that are tried. -/
def precisions : List Nat := [192, 384, 768, 1536, 3072]

/-- The sine of `m × 2 ^ q` turned by a number of right angles, rounded to nearest. -/
def roundedSin (m : Nat) (q : Int) (quarter : Nat) : Float :=
  let value (p : Nat) : Int :=
    let r := reduce m q p
    turnedSin ((r.1 + quarter) % 4) r.2 p
  match precisions.findSome? fun p => settled? (value p) p with
  | some x => x
  | none => nearestFixed (value 3072) 3072

/-- The sine. -/
def sin (x : Float) : Float :=
  match x.toModel.unpack with
  | .notANumber => x
  | .infinity _ => 0.0 / 0.0
  | .zero _ => x
  | .finite .negative m q _ => -roundedSin m q 0
  | .finite .positive m q _ => roundedSin m q 0

/-- The cosine: the sine a right angle later. -/
def cos (x : Float) : Float :=
  match x.toModel.unpack with
  | .notANumber => x
  | .infinity _ => 0.0 / 0.0
  | .zero _ => 1.0
  | .finite _ m q _ => roundedSin m q 1

end JacobianAudit.Binary64
