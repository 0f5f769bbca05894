/-
**Extrapolation with a stopping rule.**

Central differences are taken at smaller and smaller steps and extrapolated to a step of zero.
The search stops as soon as the diagonal of the tableau changes by less than a tolerance, and as
soon as it changes twice as much as at its steadiest, since round-off has then taken over. The
diagonal entry that changed least is the answer.

Main definitions:

* `JacobianAudit.Ridders.Search` — the state of the search;
* `JacobianAudit.Ridders.Judgement`, `JacobianAudit.Ridders.judge` — what a change means;
* `JacobianAudit.Ridders.derivative` — the answer of the search.
-/

import JacobianAudit.Action
import JacobianAudit.Difference.Options
import JacobianAudit.Difference.Tableau

set_option autoImplicit false

namespace JacobianAudit.Ridders

variable {σ α : Type} [Scalar α]

/-- The state of the search: the latest row, the next step, the latest diagonal entry, and the
entry that changed least together with its change. -/
structure Search (α : Type) where
  row : List (Tensor α)
  step : α
  newest : Option (Tensor α)
  best : Option (Tensor α × α)

/-- What the change of the diagonal means for the search. -/
inductive Judgement where
  /-- The diagonal has never been steadier. -/
  | steadier
  /-- It was steadier before, but the search goes on. -/
  | goOn
  /-- Round-off has taken over. -/
  | stop
  deriving DecidableEq

/-- Judges a change against the least change so far. As long as there is none, every finite change
is steadier; a change that is not a number never stops the search. -/
def judge (change : α) (least : Option α) : Judgement :=
  match least with
  | none =>
    if Scalar.isFinite change then .steadier else if Scalar.isNaN change then .goOn else .stop
  | some least =>
    if Scalar.lt change least then .steadier
    else if Scalar.le (Scalar.two * least) change then .stop else .goOn

/-- The largest change of an entry. -/
def change (newer older : Tensor α) : Except Fault α := do
  let difference ← newer.zipWith (· - ·) older
  return Scalar.largest Scalar.zero (difference.data.map Scalar.abs)

/-- Takes at most `levels` further central differences. -/
def search (central : α → Action σ (Supplied α)) (o : DiffOptions α) :
    Nat → Search α → Action σ (Search α)
  | 0, s => return s
  | levels + 1, s => do
    let value ← central s.step
    let row ← Action.ofExcept (Tableau.extend s.row value 2 o.riddersShrink)
    let entry := Tableau.diagonal row
    let next : Search α := ⟨row, s.step / o.riddersShrink, some entry, s.best⟩
    match s.newest with
    | none => search central o levels next
    | some older =>
      let c ← Action.ofExcept (change entry older)
      match judge c (s.best.map (·.2)) with
      | .steadier =>
        let next := { next with best := some (entry, c) }
        if Scalar.lt c o.riddersTolerance then return next else search central o levels next
      | .goOn => search central o levels next
      | .stop => return next

/-- The entry that the search settled on: the one that changed least, or else the latest one. -/
def Search.answer (s : Search α) : Tensor α :=
  match s.best with
  | some (entry, _) => entry
  | none => s.newest.getD (.scalar Scalar.nan)

/-- The limit of a function of the step as the step goes to zero. -/
def derivative (central : α → Action σ (Supplied α)) (start : α) (o : DiffOptions α) :
    Action σ (Tensor α) := do
  return (← search central o o.riddersLevels ⟨[], start, none, none⟩).answer

end JacobianAudit.Ridders
