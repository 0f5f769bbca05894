/-
**Quoted texts.**

A text that stands among other values has quotes around it: single ones, unless it contains a
single quote and no double one. Inside, the quote itself and the backslash get a backslash in
front; line breaks, tabs and characters that cannot be shown are written by name or by number.

Main definitions:

* `JacobianAudit.Text.escape` — one character between quotes;
* `JacobianAudit.Text.quote` — a text with its quotes.
-/

import JacobianAudit.Text.Unassigned

set_option autoImplicit false

namespace JacobianAudit.Text

/-- A number in hexadecimal digits, with zeros in front up to a width. -/
def hexadecimal (width n : Nat) : String :=
  let digits := Nat.toDigits 16 n
  String.ofList (List.replicate (width - digits.length) '0' ++ digits)

/-- A character by its number, written as short as the number allows. -/
def escapeByNumber (c : Char) : String :=
  if c.toNat < 0x100 then "\\x" ++ hexadecimal 2 c.toNat
  else if c.toNat < 0x10000 then "\\u" ++ hexadecimal 4 c.toNat
  else "\\U" ++ hexadecimal 8 c.toNat

/-- A character as it stands between quotes of a kind. -/
def escape (mark c : Char) : String :=
  if c = mark ∨ c = '\\' then "\\" ++ String.singleton c
  else if c = '\n' then "\\n"
  else if c = '\r' then "\\r"
  else if c = '\t' then "\\t"
  else if isPrintable c then String.singleton c
  else escapeByNumber c

/-- The quote that a text is put in. -/
def quotationMark (s : String) : Char :=
  if s.toList.contains '\'' && !s.toList.contains '"' then '"' else '\''

/-- A text in quotes. -/
def quote (s : String) : String :=
  let mark := quotationMark s
  String.singleton mark ++ String.join (s.toList.map (escape mark)) ++ String.singleton mark

example : quote "ab" = "'ab'" ∧ quote "it's" = "\"it's\"" := by decide +kernel
example : quote "'\"" = "'\\'\"'" ∧ quote "a\\\n" = "'a\\\\\\n'" := by decide +kernel
example : quote "\x07" = "'\\x07'" ∧ quote "é" = "'é'" := by decide +kernel

end JacobianAudit.Text
