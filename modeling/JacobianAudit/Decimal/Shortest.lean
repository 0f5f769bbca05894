/-
**The fewest digits that identify a binary number.**

A finite binary64 number `m × 2 ^ q` stands for the interval of reals that round to it: halfway to
the neighbour on either side, the ends included when `m` is even. Of the decimals in that interval
the ones with the fewest digits are selected, of those the closest to the number, and of two
equally close ones the even one. The search is the definition turned into a loop: for one digit,
two digits, … the two neighbours of the number on that decimal grid are tested in exact arithmetic.

Main definitions:

* `JacobianAudit.Decimal.identifies` — a decimal lies among the reals that round to `m × 2 ^ q`;
* `JacobianAudit.Decimal.shortest` — the selected digits.
-/

import JacobianAudit.Decimal.Layout

set_option autoImplicit false

namespace JacobianAudit.Decimal

/-- Compares `a × 10 ^ i` with `n × 2 ^ j`, exactly. -/
def compareScaled (a : Nat) (i : Int) (n : Nat) (j : Int) : Ordering :=
  compare (a * tenTo i.toNat * twoTo (-j).toNat) (n * twoTo j.toNat * tenTo (-i).toNat)

/-- Below a power of two the neighbour is half as far away as above it, except where the exponent
cannot become smaller. -/
def narrowBelow (m : Nat) (q : Int) : Bool := m == twoTo 52 && -1074 < q

/-- The decimal `d × 10 ^ g` rounds to the binary64 number `m × 2 ^ q`. -/
def identifies (m : Nat) (q : Int) (d : Nat) (g : Int) : Bool :=
  let low := if narrowBelow m q then 4 * m - 1 else 4 * m - 2
  let high := 4 * m + 2
  let closed := m % 2 == 0
  let below := compareScaled d g low (q - 2)
  let above := compareScaled d g high (q - 2)
  (below == .gt || (closed && below == .eq)) && (above == .lt || (closed && above == .eq))

/-- The magnitude `m × 2 ^ q` as a fraction. -/
def binaryFraction (m : Nat) (q : Int) : Nat × Nat := (m * twoTo q.toNat, twoTo (-q).toNat)

/-- The better of the number's two neighbours on the grid of `10 ^ g`, if one identifies it. -/
def neighbour? (m : Nat) (q : Int) (g : Int) : Option Nat :=
  let scaled := onGrid (binaryFraction m q).1 (binaryFraction m q).2 g
  let down := scaled.1 / scaled.2
  match identifies m q down g, identifies m q (down + 1) g with
  | true, true => some (roundHalfEven scaled.1 scaled.2)
  | true, false => some down
  | false, true => some (down + 1)
  | false, false => none

/-- The fewest digits that identify `m × 2 ^ q`, for a positive `m`. Seventeen always do; the
exact decimal value stands behind them so that the function is total. -/
def shortest (m : Nat) (q : Int) : Digits :=
  let top := leadingExponent (binaryFraction m q).1 (binaryFraction m q).2
  let tried := (List.range 17).findSome? fun (n : Nat) =>
    (neighbour? m q (top - (n : Int))).map fun d => Digits.ofScaled d (top - (n : Int))
  match tried with
  | some digits => digits
  | none => Digits.ofScaled (m * twoTo q.toNat * Nat.pow 5 (-q).toNat) (-((-q).toNat : Int))

/-- Numbers are written with the fewest digits that identify them: positionally below `10 ^ 16`,
an integral value with a point and a zero, and with an exponent otherwise. -/
def identifying : Layout := ⟨16, true⟩

example : shortest 7205759403792794 (-56) = ⟨['1'], -1⟩ := by decide +kernel
example : shortest 1 (-1074) = ⟨['5'], -324⟩ := by decide +kernel

end JacobianAudit.Decimal
