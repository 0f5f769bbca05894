/-
**Binary64 numbers and exact fractions.**

A binary64 number stands for an exact fraction, and every fraction has a binary64 number nearest
to it. Both directions go through the unpacked form of a number, sign, mantissa and exponent.

Main definitions:

* `JacobianAudit.Binary64.quantity` — what a binary64 number stands for;
* `JacobianAudit.Binary64.leadingBits` — the bits of an integer that rounding asks for;
* `JacobianAudit.Binary64.nearestBinary` — the binary64 number nearest to a scaled integer;
* `JacobianAudit.Binary64.nearest` — the binary64 number nearest to a fraction, ties to even;
* `JacobianAudit.Binary64.nearestDecimal` — the binary64 number nearest to a decimal;
* `JacobianAudit.Binary64.text` — the fewest digits that identify a binary64 number.
-/

import JacobianAudit.Quantity
import JacobianAudit.Decimal.Shortest

set_option autoImplicit false

namespace JacobianAudit.Binary64

open Float.Model (UnpackedFloat)
open Decimal (twoTo)

/-- What a binary64 number stands for. -/
def quantity (x : Float) : Quantity :=
  match x.toModel.unpack with
  | .notANumber => .nan
  | .infinity sign => .infinite (sign == .negative)
  | .zero sign => .finite (sign == .negative) 0 1
  | .finite sign m q _ =>
    .finite (sign == .negative) (Decimal.binaryFraction m q).1 (Decimal.binaryFraction m q).2

/-- The number of bits that `leadingBits` leaves out. -/
def excessBits (m : Nat) : Nat := m.log2 - 60

/-- The first 61 bits of a number. The last of them is set if any bit that is left out is, which
keeps a number that lies beyond a tie of shorter numbers from becoming that tie. -/
def leadingBits (m : Nat) : Nat :=
  let kept := Nat.shiftRight m (excessBits m)
  if kept * twoTo (excessBits m) = m then kept else kept / 2 * 2 + 1

/-- The binary64 number nearest to `m × 2 ^ q`, ties to even. What is closer to zero than any
positive number of the format by far is not written out. -/
def nearestBinary (negative : Bool) (m : Nat) (q : Int) : Float :=
  let sign : UnpackedFloat.Sign := if negative then .negative else .positive
  if m = 0 ∨ m.log2 + q < -1200 then .ofModel (.pack (.zero sign))
  else .ofModel (.pack (.round .binary64 sign (leadingBits m) (q + excessBits m)))

/-- The binary64 number nearest to `num / den`, ties to even: one division to more bits than are
needed, with a last bit that tells whether there is a remainder, rounded once. A fraction too large
for the format gives an infinity. -/
def nearest (negative : Bool) (num den : Nat) : Float :=
  let up := 64 + den.log2 - num.log2
  let down := num.log2 - (64 + den.log2)
  let n := num * twoTo up
  let d := den * twoTo down
  nearestBinary negative (2 * (n / d) + if n % d = 0 then 0 else 1) ((down : Int) - up - 1)

/-- The binary64 number nearest to `m × 10 ^ e`, ties to even. A power of ten far beyond the range
of the format is not written out. -/
def nearestDecimal (negative : Bool) (m : Nat) (e : Int) : Float :=
  let top := e + Decimal.digitCount m
  if m = 0 ∨ top < -400 then nearest negative 0 1
  else
    let e := if 400 < top then 400 else e
    nearest negative (Decimal.onGrid m 1 (-e)).1 (Decimal.onGrid m 1 (-e)).2

/-- A binary64 number with the fewest digits that identify it. -/
def text (x : Float) : String :=
  match x.toModel.unpack with
  | .finite _ m q _ => Decimal.identifying.render (fun _ _ => Decimal.shortest m q) (quantity x)
  | _ => Decimal.identifying.render (fun _ _ => Decimal.Digits.zero) (quantity x)

example : nearest false 1 10 = 0.1 := by decide +kernel
example : nearestDecimal false 25 (-1) = 2.5 ∧ nearestDecimal true 3 2 = -300.0 := by decide +kernel
example : leadingBits (twoTo 70 + 1) = twoTo 60 + 1 ∧ leadingBits (twoTo 70) = twoTo 60 := by
  decide +kernel
example : text 0.1 = "0.1" ∧ text (-0.0) = "-0.0" ∧ text 1e16 = "1e+16" ∧ text 1e22 = "1e+22" := by
  decide +kernel
example : text (0.1 + 0.2) = "0.30000000000000004" ∧ text 1.5e-7 = "1.5e-07" := by decide +kernel

end JacobianAudit.Binary64
