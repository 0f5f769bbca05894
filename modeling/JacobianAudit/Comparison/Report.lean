/-
**The diagnostic log.**

A block that passed leaves no trace in the log. For a block that did not, the log has a fragment:
a heading, the names of the columns, one line per offending entry up to a cap, and a line that says
how many were left out. The whole log begins with a summary and is empty exactly when every block
passed.

Main definitions:

* `JacobianAudit.BlockComparison.render` — a block's fragment;
* `JacobianAudit.aggregate` — the worst error over all blocks, and the log.
-/

import JacobianAudit.Comparison.Basic

set_option autoImplicit false

namespace JacobianAudit

variable {α : Type} [Scalar α]

/-- How many offending entries a block's fragment shows by default. -/
def defaultCap : Int := 10

/-- The entries shown under a cap. A negative cap leaves out so many at the end. -/
def capped {β : Type} (cap : Int) (items : List β) : List β :=
  if 0 ≤ cap then items.take cap.toNat else items.take (items.length - (-cap).toNat)

/-- A scalar to a number of significant digits. -/
def significantText (places : Nat) (x : α) : String := Decimal.general places (Scalar.quantity x)

/-- A line of the table of offending entries. -/
def tableLine (row col analytic numeric error : String) : String :=
  "  " ++ Decimal.padLeft 4 row ++ " " ++ Decimal.padLeft 4 col ++ " " ++
    Decimal.padLeft 17 analytic ++ " " ++ Decimal.padLeft 17 numeric ++ " " ++
    Decimal.padLeft 17 error ++ "\n"

/-- The line of an offending entry. -/
def Offence.line (o : Offence α) : String :=
  tableLine (toString o.row) (toString o.col) (significantText 10 o.analytic)
    (significantText 10 o.numeric) (significantText 10 o.error)

namespace BlockComparison

/-- The heading of a block's fragment. -/
def heading (c : BlockComparison α) : String :=
  "Parameter block " ++ c.block.shown ++ ": worst relative error " ++
    significantText 6 c.worst ++ " exceeds tolerance " ++ significantText 6 c.tolerance ++ ".\n"

/-- The line that says how many entries are not shown, if there are any. -/
def omittedLine (omitted : Nat) : String :=
  if omitted = 0 then ""
  else "  ... " ++ toString omitted ++ " more offending entries not shown.\n"

/-- The block's fragment of the log; empty if the block passed. -/
def render (c : BlockComparison α) (cap : Int) : String :=
  if c.passed then ""
  else
    let shown := capped cap c.offending
    c.heading ++ tableLine "row" "col" "analytic" "numeric" "rel. error" ++
      String.join (shown.map Offence.line) ++ omittedLine (c.offending.length - shown.length)

/-- The block's fragment under a cap that was written as a setting. The cap has to be an integer,
unless it is not looked at because the block passed. -/
def renderUpTo (c : BlockComparison α) (cap : Setting) : Except Fault String :=
  if c.passed then return "" else return c.render (← cap.index)

end BlockComparison

/-- The largest of the blocks' worst errors: not a number as soon as one of them is not, and zero
where there are none. -/
def worstOfBlocks (comparisons : List (BlockComparison α)) : α :=
  if comparisons.any fun c => Scalar.isNaN c.worst then Scalar.nan
  else
    match comparisons.map (·.worst) with
    | [] => Scalar.zero
    | e :: rest => rest.foldl Scalar.orLarger e

/-- The summary at the head of the log. -/
def summary (components blocks : Nat) (worst : α) : String :=
  "Detected " ++ toString components ++ " bad Jacobian component(s) in " ++ toString blocks ++
    " parameter block(s). Worst relative error was " ++ significantText 6 worst ++ ".\n"

/-- The log over blocks: empty if all passed, and otherwise a summary and the fragments of those
that did not. -/
def diagnosticLog (comparisons : List (BlockComparison α)) (cap : Int) : String :=
  let failed := comparisons.filter fun c => !c.passed
  if failed.isEmpty then ""
  else
    summary (failed.flatMap (·.offending)).length failed.length (worstOfBlocks comparisons) ++
      String.join (failed.map (·.render cap))

/-- The worst error over all blocks, and the log. -/
def aggregate (comparisons : List (BlockComparison α)) (cap : Int) : α × String :=
  (worstOfBlocks comparisons, diagnosticLog comparisons cap)

/-- The worst error and the log under a cap that was written as a setting. The cap has to be an
integer, unless it is not looked at because all blocks passed. -/
def aggregateUpTo (comparisons : List (BlockComparison α)) (cap : Setting) :
    Except Fault (α × String) :=
  if comparisons.all (·.passed) then return aggregate comparisons defaultCap
  else return aggregate comparisons (← cap.index)

end JacobianAudit
