/-
**Fractions on decimal grids.**

Two questions that every decimal text of a number asks: where its leading digit stands, and which
multiple of a power of ten lies closest. Both are answered in exact natural-number arithmetic.

Main definitions:

* `JacobianAudit.Decimal.tenTo`, `JacobianAudit.Decimal.twoTo` — powers of the two bases;
* `JacobianAudit.Decimal.leadingExponent` — the power of ten of the leading digit;
* `JacobianAudit.Decimal.onGrid` — a fraction measured in units of a power of ten;
* `JacobianAudit.Decimal.roundHalfEven` — the nearest natural number, a half going to the even one.
-/

set_option autoImplicit false

namespace JacobianAudit.Decimal

/-- A power of ten. -/
def tenTo (n : Nat) : Nat := Nat.pow 10 n

/-- A power of two. -/
def twoTo (n : Nat) : Nat := Nat.pow 2 n

/-- How many decimal digits a natural number is written with. -/
def digitCount (n : Nat) : Nat := (Nat.toDigits 10 n).length

/-- The exponent `e` of the leading digit of a positive fraction:
`10 ^ e ≤ num / den < 10 ^ (e + 1)`. -/
def leadingExponent (num den : Nat) : Int :=
  if den ≤ num then (digitCount (num / den) : Int) - 1
  else
    let d := digitCount (den / num)
    if num * tenTo (d - 1) = den then 1 - (d : Int) else -(d : Int)

/-- The fraction `num / den` in units of `10 ^ g`, again as a fraction. -/
def onGrid (num den : Nat) (g : Int) : Nat × Nat :=
  if 0 ≤ g then (num, den * tenTo g.toNat) else (num * tenTo (-g).toNat, den)

/-! ### Rounding to the nearest -/

/-- The natural number closest to `num / den`; of two equally close ones the even one. -/
def roundHalfEven (num den : Nat) : Nat :=
  let q := num / den
  let r := num % den
  if 2 * r < den then q
  else if den < 2 * r then q + 1
  else if q % 2 = 0 then q else q + 1

end JacobianAudit.Decimal
