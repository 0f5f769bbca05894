/-
**Enclosures.**

A positive number that cannot be held exactly is known by two ends, of limited length, that it lies
between. Every operation shortens its ends outward, so the result is enclosed as well; ends that
are short enough stay as they are, and an exact number then stays exact. As soon as both ends round
to the same binary64 number, the number in between does too.

Main definitions:

* `JacobianAudit.Binary64.Enclosure` — two ends with a common exponent;
* `JacobianAudit.Binary64.Enclosure.mul`, `JacobianAudit.Binary64.Enclosure.power`,
  `JacobianAudit.Binary64.Enclosure.sqrt`, `JacobianAudit.Binary64.Enclosure.reciprocal` — the
  operations;
* `JacobianAudit.Binary64.Enclosure.settled?` — the binary64 number that both ends round to.
-/

import JacobianAudit.Binary64.Rounding

set_option autoImplicit false

namespace JacobianAudit.Binary64

open Decimal (twoTo)

/-- A positive number from `low × 2 ^ exponent` to `high × 2 ^ exponent`. -/
structure Enclosure where
  low : Nat
  high : Nat
  exponent : Int

namespace Enclosure

/-- The number of zeros that a binary numeral ends in. -/
def trailingZeros (n : Nat) : Nat := (n ^^^ (n - 1)).log2

/-- The number `m × 2 ^ q` itself, by the odd part of `m`: its powers stay exact for long. -/
def exact (m : Nat) (q : Int) : Enclosure :=
  let zeros := trailingZeros m
  ⟨Nat.shiftRight m zeros, Nat.shiftRight m zeros, q + zeros⟩

/-! ### Shortening -/

/-- A number without its last `k` bits, rounded down. -/
def floorBits (n k : Nat) : Nat := Nat.shiftRight n k

/-- A number without its last `k` bits, rounded up. -/
def ceilBits (n k : Nat) : Nat := if n = 0 then 0 else Nat.shiftRight (n - 1) k + 1

/-- How many bits the ends are too long. -/
def excess (bits : Nat) (e : Enclosure) : Nat := e.high.log2 + 1 - bits

/-- The enclosure with ends of a number of bits, about; shorter ends stay as they are. -/
def coarsen (bits : Nat) (e : Enclosure) : Enclosure :=
  ⟨floorBits e.low (e.excess bits), ceilBits e.high (e.excess bits),
    e.exponent + e.excess bits⟩

/-! ### Operations -/

/-- The product. -/
def mul (bits : Nat) (a b : Enclosure) : Enclosure :=
  coarsen bits ⟨a.low * b.low, a.high * b.high, a.exponent + b.exponent⟩

/-- The power, by squaring along the binary digits of the exponent. -/
def power (bits : Nat) (e : Enclosure) (n : Nat) : Enclosure :=
  (List.range (n.log2 + 1)).foldr (fun i p =>
    let square := mul bits p p
    if n.testBit i then mul bits square e else square) (exact 1 0)

/-- The largest natural number whose square is at most `n`, found bit by bit. -/
def floorSqrt (n : Nat) : Nat :=
  (List.range (n.log2 / 2 + 1)).foldr (fun i r =>
    if (r + twoTo i) * (r + twoTo i) ≤ n then r + twoTo i else r) 0

/-- The least natural number whose square is not below `n`. -/
def ceilSqrt (n : Nat) : Nat :=
  if floorSqrt n * floorSqrt n = n then floorSqrt n else floorSqrt n + 1

/-- The square root. -/
def sqrt (bits : Nat) (e : Enclosure) : Enclosure :=
  let unit := 2 * bits + (e.exponent % 2).toNat
  coarsen bits
    ⟨floorSqrt (e.low * twoTo unit), ceilSqrt (e.high * twoTo unit), (e.exponent - unit) / 2⟩

/-- The reciprocal. -/
def reciprocal (bits : Nat) (e : Enclosure) : Enclosure :=
  let unit := e.high.log2 + 1 + bits
  ⟨twoTo unit / e.high, (twoTo unit + e.low - 1) / e.low, -e.exponent - unit⟩

/-! ### Rounding -/

/-- The binary64 number that both ends round to, if there is one. -/
def settled? (negative : Bool) (e : Enclosure) : Option Float :=
  let low := nearestBinary negative e.low e.exponent
  let high := nearestBinary negative e.high e.exponent
  if low.toBits = high.toBits then some low else none

example : (power 8 (exact 3 0) 4).low = 81 ∧ (power 4 (exact 3 0) 4).low = 10 := by decide +kernel
example : floorSqrt 15 = 3 ∧ floorSqrt 16 = 4 ∧ ceilSqrt 15 = 4 := by decide +kernel

end Enclosure

end JacobianAudit.Binary64
