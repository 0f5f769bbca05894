/-
**Comparisons as callers list them.**

A log may be made of comparisons that a caller puts together himself. Then rows, columns and errors
are whatever he wrote. Errors and tolerances have to be numbers. An offending entry has to have
three numbers beside an integer row and an integer column, but only where the log shows it: in
blocks that did not pass, and there up to the cap. An entry that is not shown still counts.

Main definitions:

* `JacobianAudit.OffenceDraft`, `JacobianAudit.ComparisonDraft` — what a caller lists;
* `JacobianAudit.ComparisonDraft.accept` — the comparison, if the log can show it;
* `JacobianAudit.aggregateDrafts` — the worst error and the log;
* `JacobianAudit.compareBlockWithin` — the comparison under a tolerance that a caller wrote.
-/

import JacobianAudit.Comparison.Report

set_option autoImplicit false

namespace JacobianAudit

variable {α : Type}

/-- An offending entry as a caller lists it: a place and numbers, of which there should be three. A
number is missing if what he wrote is none. -/
structure OffenceDraft (α : Type) where
  row : Setting
  col : Setting
  numbers : List (Option α)

/-- A comparison as a caller lists it. The tolerance is missing if what he wrote is no number. -/
structure ComparisonDraft (α : Type) where
  block : Setting
  worst : Nested α
  tolerance : Option α
  offending : List (OffenceDraft α)

/-- A number that must not be missing. -/
def required : Option α → Except Fault α
  | some x => .ok x
  | none => .error .notNumeric

/-- A place as an integer; zero where it is none. -/
def placeOrZero (s : Setting) : Int := s.place.toOption.getD 0

namespace OffenceDraft

/-- The entry can be shown. How many numbers it has is looked at before its place, and its place
before the numbers. -/
def check (d : OffenceDraft α) : Except Fault Unit := do
  if d.numbers.length ≠ 3 then throw (.malformed .unpacking)
  let _ ← d.row.place
  let _ ← d.col.place
  d.numbers.forM fun x => discard (required x)

variable [Scalar α]

/-- The number at a position; not a number where there is none. -/
def number (d : OffenceDraft α) (i : Nat) : α := d.numbers[i]?.join.getD Scalar.nan

/-- The entry at its place. -/
def toOffence (d : OffenceDraft α) : Offence α :=
  ⟨placeOrZero d.row, placeOrZero d.col, d.number 0, d.number 1, d.number 2⟩

end OffenceDraft

namespace ComparisonDraft

variable [Scalar α]

/-- The comparison, if under a cap the log can show it. -/
def accept (cap : Setting) (d : ComparisonDraft α) : Except Fault (BlockComparison α) := do
  let worst ← d.worst.toNumber
  let tolerance ← required d.tolerance
  let c : BlockComparison α :=
    ⟨d.block, worst, tolerance, d.offending.map OffenceDraft.toOffence⟩
  if c.passed then return c
  else do
    (capped (← cap.index) d.offending).forM OffenceDraft.check
    return c

end ComparisonDraft

/-- The entry as a caller would list it. -/
def Offence.draft (o : Offence α) : OffenceDraft α :=
  ⟨.whole o.row, .whole o.col, [some o.analytic, some o.numeric, some o.error]⟩

/-- The comparison as a caller would list it. -/
def BlockComparison.draft (c : BlockComparison α) : ComparisonDraft α :=
  ⟨c.block, .number c.worst, some c.tolerance, c.offending.map Offence.draft⟩

variable [Scalar α]

/-- The worst error and the log over comparisons as callers list them. Their errors are first read
as one list of numbers. -/
def aggregateDrafts (drafts : List (ComparisonDraft α)) (cap : Setting) :
    Except Fault (α × String) := do
  let _ ← (Supplied.ofNested (.list (drafts.map (·.worst)))).read
  let _ ← drafts.mapM (·.worst.toNumber)
  aggregateUpTo (← drafts.mapM (ComparisonDraft.accept cap)) cap

/-- The row and the column are those of an entry of a matrix of this shape. -/
def isPlaceOf (shape : Shape) (row col : Nat) : Bool :=
  match shape with
  | [rows, cols] => row < rows && col < cols
  | _ => false

/-- Holds errors against an array of tolerances, both stretched to a common shape. There has to be
an error at the place of each entry that is not within its tolerance. -/
def holdAgainst (errors tolerances : Tensor α) : Except Fault Unit := do
  let excess := fun e t => if Scalar.le e t then Scalar.zero else Scalar.one
  let beyond ← errors.zipWith excess tolerances
  let bad := beyond.data.zipIdx.filter fun p => Scalar.lt Scalar.zero p.1
  match beyond.shape with
  | [_, cols] =>
    if bad.all fun p => isPlaceOf errors.shape (p.2 / cols) (p.2 % cols) then return
    else throw .entryIndex
  | _ => if bad.isEmpty then return else throw (.malformed .unpacking)

/-- Compares one block's Jacobians under a tolerance as a caller wrote it. It has to be a number,
which matters only once there are errors to hold against it. -/
def compareBlockWithin (block : Setting) (analytic numeric : Supplied α) (tolerance : Nested α) :
    Except Fault (BlockComparison α) := do
  match tolerance with
  | .number tolerance => compareBlock block analytic numeric tolerance
  | .missing =>
    let _ ← relativeErrors analytic numeric
    throw .notNumeric
  | .list items =>
    let errors ← relativeErrors analytic numeric
    if !errors.data.isEmpty then
      holdAgainst errors (← (Supplied.ofNested (.list items)).read)
    throw .notNumeric

end JacobianAudit
