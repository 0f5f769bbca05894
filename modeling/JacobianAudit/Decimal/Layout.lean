/-
**Laying out decimal digits.**

Digits and the exponent of the leading one are written positionally or with an exponent. Which of
the two is a matter of the layout: both layouts of this library start to write an exponent below
`10 ^ -4`; they differ in where large numbers switch and in whether an integral value keeps its
point.

Main definitions:

* `JacobianAudit.Decimal.Digits` — the digits of a positive decimal and where the first one stands;
* `JacobianAudit.Decimal.Layout` — the two decisions of a layout;
* `JacobianAudit.Decimal.Layout.render` — the text of a quantity, given how to select its digits;
* `JacobianAudit.Decimal.general` — a quantity to a number of significant digits, trailing zeros
  dropped.
-/

import JacobianAudit.Decimal.Rounding
import JacobianAudit.Quantity

set_option autoImplicit false

namespace JacobianAudit.Decimal

/-- The decimal `d₀.d₁d₂… × 10 ^ exponent`. -/
structure Digits where
  chars : List Char
  exponent : Int
  deriving DecidableEq

namespace Digits

/-- Trailing zeros carry no information after the point; the leading digit always stays. -/
def dropTrailingZeros : List Char → List Char
  | [] => []
  | c :: rest => c :: (rest.reverse.dropWhile (· == '0')).reverse

/-- The decimal `n × 10 ^ g`, without trailing zeros. -/
def ofScaled (n : Nat) (g : Int) : Digits :=
  let chars := Nat.toDigits 10 n
  ⟨dropTrailingZeros chars, g + (chars.length : Int) - 1⟩

/-- The digits of zero. -/
def zero : Digits := ⟨['0'], 0⟩

end Digits

/-- The decisions of a layout. -/
structure Layout where
  /-- A leading digit at this exponent or above is written with an exponent. -/
  positionalBelow : Int
  /-- An integral value that is written positionally ends in a point and a zero. -/
  keepsPoint : Bool

namespace Layout

/-- The whole part of a positional number. -/
def wholePart (d : Digits) : List Char :=
  if d.exponent < 0 then ['0']
  else
    let n := d.exponent.toNat + 1
    d.chars.take n ++ List.replicate (n - d.chars.length) '0'

/-- The digits after the point of a positional number. -/
def fractionPart (d : Digits) : List Char :=
  if d.exponent < 0 then List.replicate ((-d.exponent).toNat - 1) '0' ++ d.chars
  else d.chars.drop (d.exponent.toNat + 1)

/-- Digits with a point between the whole part and the fraction. -/
def positional (l : Layout) (d : Digits) : List Char :=
  match fractionPart d with
  | [] => wholePart d ++ (if l.keepsPoint then ['.', '0'] else [])
  | f => wholePart d ++ '.' :: f

/-- An exponent is signed and has two digits at least. -/
def exponentMark (e : Int) : List Char :=
  let digits := Nat.toDigits 10 e.natAbs
  'e' :: (if e < 0 then '-' else '+') :: (List.replicate (2 - digits.length) '0' ++ digits)

/-- Digits with a point behind the first one, and an exponent. -/
def scientific (d : Digits) : List Char :=
  match d.chars with
  | [] => exponentMark d.exponent
  | [c] => c :: exponentMark d.exponent
  | c :: rest => c :: '.' :: (rest ++ exponentMark d.exponent)

/-- The text of a positive decimal. -/
def write (l : Layout) (d : Digits) : List Char :=
  if -4 ≤ d.exponent ∧ d.exponent < l.positionalBelow then l.positional d else scientific d

/-- The text of a quantity whose positive magnitudes are written with the digits `select` gives.
What is not a number has no sign. -/
def render (l : Layout) (select : Nat → Nat → Digits) : Quantity → String
  | .nan => "nan"
  | .infinite negative => if negative then "-inf" else "inf"
  | .finite negative num den =>
    let digits := if num = 0 then Digits.zero else select num den
    String.ofList ((if negative then ['-'] else []) ++ l.write digits)

end Layout

/-! ### A number of significant digits -/

/-- The digits of a positive fraction rounded to `places` significant ones, a half to even. -/
def significant (places num den : Nat) : Digits :=
  let g := leadingExponent num den - (places : Int) + 1
  let scaled := onGrid num den g
  Digits.ofScaled (roundHalfEven scaled.1 scaled.2) g

/-- A quantity to `places` significant digits; a number too large to show its units with that many
digits is written with an exponent. -/
def general (places : Nat) (q : Quantity) : String :=
  Layout.render ⟨places, false⟩ (significant places) q

/-- Text moved to the right end of a field. -/
def padLeft (width : Nat) (s : String) : String :=
  String.ofList (List.replicate (width - s.length) ' ') ++ s

example : general 6 (.finite false 1 1000000) = "1e-06" := by decide +kernel
example : general 3 (.finite true 123456 1) = "-1.23e+05" := by decide +kernel
example : padLeft 5 (general 6 (.finite true 0 1)) = "   -0" := by decide +kernel

end JacobianAudit.Decimal
