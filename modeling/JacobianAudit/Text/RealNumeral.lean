/-
**Numerals with a point.**

Such a numeral has digits, perhaps with a point before, between or behind them, and perhaps an
exponent of ten; a sign may stand in front and white space around it. Its digits may be of any
script, with single underscores between them. Infinity and what is not a number are written by
name, whatever the case of the letters.

Main definitions:

* `JacobianAudit.Text.RealNumeral.parse?` — the binary64 number nearest to what a text denotes.
-/

import JacobianAudit.Binary64.Rounding
import JacobianAudit.Text.Numeral

set_option autoImplicit false

namespace JacobianAudit.Text.RealNumeral

/-- The mark of an exponent. -/
def isExponentMark (c : Char) : Bool := c == 'e' || c == 'E'

/-- The digits of a part of a numeral, which may be empty. -/
def partDigits? (part : List Char) : Option (List Nat) :=
  if part.isEmpty then some [] else Numeral.digits? false part

/-- The exponent, with its mark in front; none at all stands for zero. -/
def exponent? : List Char → Option Int
  | [] => some 0
  | _ :: '-' :: rest => do return -(Numeral.value (← Numeral.digits? false rest) : Int)
  | _ :: '+' :: rest => do return (Numeral.value (← Numeral.digits? false rest) : Int)
  | _ :: rest => do return (Numeral.value (← Numeral.digits? false rest) : Int)

/-- A body, cut before the point and before the mark of the exponent. -/
def parts (body : List Char) : List Char × List Char × List Char :=
  let mantissa := body.takeWhile fun c => !isExponentMark c
  (mantissa.takeWhile (· != '.'), mantissa.dropWhile (· != '.'),
    body.dropWhile fun c => !isExponentMark c)

/-- The number that a body denotes: its digits as an integer, scaled by a power of ten. -/
def ofBody? (negative : Bool) (body : List Char) : Option Float := do
  let whole ← partDigits? (parts body).1
  let fraction ← partDigits? ((parts body).2.1.drop 1)
  let exponent ← exponent? (parts body).2.2
  if whole.isEmpty && fraction.isEmpty then none
  else
    some (Binary64.nearestDecimal negative (Numeral.value (whole ++ fraction))
      (exponent - fraction.length))

/-- The number that an unsigned numeral denotes. -/
def unsigned? (negative : Bool) (body : List Char) : Option Float :=
  match String.ofList (body.map Char.toLower) with
  | "inf" => some (if negative then -1.0 / 0.0 else 1.0 / 0.0)
  | "infinity" => some (if negative then -1.0 / 0.0 else 1.0 / 0.0)
  | "nan" => some (0.0 / 0.0)
  | _ => ofBody? negative body

/-- The binary64 number nearest to what a text denotes, if it is a numeral. -/
def parse? (s : String) : Option Float :=
  match Numeral.strip s.toList with
  | '-' :: body => unsigned? true body
  | '+' :: body => unsigned? false body
  | body => unsigned? false body

example : parse? " 1_0.5 " = some 10.5 ∧ parse? "-.5e1" = some (-5.0) := by decide +kernel
example : parse? "1." = some 1.0 ∧ parse? "2E-1" = some 0.2 := by decide +kernel
example : parse? "1_.5" = none ∧ parse? "." = none ∧ parse? "1e" = none := by decide +kernel
example : parse? "-Inf" = some (-1.0 / 0.0) ∧ parse? "in" = none := by decide +kernel

end JacobianAudit.Text.RealNumeral
