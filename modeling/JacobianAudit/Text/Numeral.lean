/-
**Integer numerals.**

A numeral is a sequence of decimal digits of any script, with single underscores allowed between
digits, at most one sign in front and white space around it. It has at most `maxDigits` digits,
leading zeros included.

Main definitions:

* `JacobianAudit.Text.Numeral.digits?` — the digits of a numeral's body;
* `JacobianAudit.Text.Numeral.parse?` — the integer that a text denotes.
-/

import JacobianAudit.Text.CharClass

set_option autoImplicit false

namespace JacobianAudit.Text.Numeral

/-- Longer numerals are refused. -/
def maxDigits : Nat := 4300

/-- The digits of a numeral's body. An underscore stands between two digits, and the body ends in a
digit: `mayEnd` says whether an underscore, or the end, may come next. -/
def digits? (mayEnd : Bool) : List Char → Option (List Nat)
  | [] => if mayEnd then some [] else none
  | c :: rest =>
    if c = '_' then if mayEnd then digits? false rest else none
    else
      match digitValue? c with
      | some d => (digits? true rest).map (d :: ·)
      | none => none

/-- The value of a numeral's digits, the most significant first. -/
def value (ds : List Nat) : Nat := ds.foldl (fun n d => 10 * n + d) 0

/-- The value of a numeral's body. -/
def natural? (body : List Char) : Option Nat := do
  let ds ← digits? false body
  if ds.length ≤ maxDigits then some (value ds) else none

/-- Removes the white space at both ends. -/
def strip (cs : List Char) : List Char :=
  ((cs.dropWhile isBlank).reverse.dropWhile isBlank).reverse

/-- The integer that a text denotes, if it is a numeral. -/
def parse? (s : String) : Option Int :=
  match strip s.toList with
  | '-' :: body => (natural? body).map fun n => -(n : Int)
  | '+' :: body => (natural? body).map fun n => (n : Int)
  | body => (natural? body).map fun n => (n : Int)

example : parse? " -1_000\n" = some (-1000) := by decide +kernel
example : parse? "1__0" = none ∧ parse? "+ 5" = none ∧ parse? "" = none := by decide +kernel

end JacobianAudit.Text.Numeral
