/-
**Exact quantities.**

A number that the library computes with is either not a number, an infinity, or an exact fraction.
This module holds that reading. The text of a number, its conversion to an integer and comparisons
with integers are defined on it: they depend on what a number stands for and not on how it is
stored.

Main definitions:

* `JacobianAudit.Quantity` — the three readings of a number;
* `JacobianAudit.Quantity.equals`, `JacobianAudit.Quantity.atMost` — equality and order.

Main results:

* `JacobianAudit.Quantity.equals_ofInt`, `JacobianAudit.Quantity.atMost_ofInt` — on integers these
  are the usual ones.
-/

set_option autoImplicit false

namespace JacobianAudit

/-- What a number stands for, exactly. The sign of a finite quantity is kept apart from its
magnitude `num / den`, so that zero has two of them. -/
inductive Quantity where
  | nan
  | infinite (negative : Bool)
  | finite (negative : Bool) (num den : Nat)
  deriving DecidableEq

namespace Quantity

/-- A magnitude with its sign. -/
def signed (negative : Bool) (n : Nat) : Int := if negative then -(n : Int) else n

/-- The quantity of an integer. -/
def ofInt (n : Int) : Quantity := finite (n < 0) n.natAbs 1

/-- The same number; what is not a number equals nothing. -/
def equals : Quantity → Quantity → Bool
  | infinite a, infinite b => a == b
  | finite a m d, finite b n e => signed a m * e == signed b n * d
  | _, _ => false

/-- A number that is not larger; what is not a number compares with nothing. -/
def atMost : Quantity → Quantity → Bool
  | nan, _ => false
  | _, nan => false
  | infinite a, infinite b => a || !b
  | infinite a, finite _ _ _ => a
  | finite _ _ _, infinite b => !b
  | finite a m d, finite b n e => signed a m * e ≤ signed b n * d

theorem signed_natAbs (n : Int) : signed (n < 0) n.natAbs = n := by
  by_cases h : n < 0
  · rw [signed, if_pos (decide_eq_true h)]
    omega
  · rw [signed, if_neg (by simpa using h)]
    omega

theorem equals_ofInt (m n : Int) : (ofInt m).equals (ofInt n) = decide (m = n) := by
  simp only [ofInt, equals, signed_natAbs]
  by_cases h : m = n <;> simp [h]

theorem atMost_ofInt (m n : Int) : (ofInt m).atMost (ofInt n) = decide (m ≤ n) := by
  simp [ofInt, atMost, signed_natAbs]

end Quantity

end JacobianAudit
