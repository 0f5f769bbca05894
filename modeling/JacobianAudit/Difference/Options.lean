/-
**Settings of numeric differentiation.**

The settings choose a difference scheme, the steps and the effort. They are accepted only if all
steps are positive, at least two levels of extrapolation are allowed, and the step really shrinks
from one level to the next.

Main definitions:

* `JacobianAudit.Scheme` — the difference schemes;
* `JacobianAudit.DiffOptions` — accepted settings;
* `JacobianAudit.OptionsDraft` — settings as they are given;
* `JacobianAudit.DiffOptions.ofDraft` — what is accepted;
* `JacobianAudit.DiffOptions.stepSize` — the step for a coordinate of some magnitude.

Main results:

* `JacobianAudit.DiffOptions.ofDraft_draft` — accepted settings are accepted again.
-/

import JacobianAudit.Scalar
import JacobianAudit.Setting

set_option autoImplicit false

namespace JacobianAudit

/-- How derivatives are estimated from residuals. -/
inductive Scheme where
  /-- From the point and a step forward. -/
  | forward
  /-- From a step forward and a step backward. -/
  | central
  /-- From central differences with smaller and smaller steps, extrapolated to zero. -/
  | ridders
  deriving DecidableEq

namespace Scheme

/-- The name of a scheme. -/
def name : Scheme → String
  | forward => "forward"
  | central => "central"
  | ridders => "ridders"

/-- The scheme of a name. -/
def ofName? (s : String) : Option Scheme := [forward, central, ridders].find? fun m => m.name == s

example : ofName? "ridders" = some ridders ∧ ofName? "Ridders" = none := by decide

end Scheme

/-- Settings as a caller gives them. A step, a tolerance or a factor is missing if what was given is
no number. -/
structure OptionsDraft (α : Type) where
  /-- No scheme is a name that no scheme has. -/
  scheme : Option Scheme
  relativeStep : Option α
  minStep : Option α
  riddersRelativeStep : Option α
  riddersMinStep : Option α
  riddersLevels : Setting
  riddersTolerance : Option α
  riddersShrink : Option α
  workers : Setting

/-- Accepted settings. -/
structure DiffOptions (α : Type) [Scalar α] where
  scheme : Scheme
  /-- Forward and central differences step by this fraction of a coordinate's magnitude. -/
  relativeStep : α
  /-- They step at least so far. -/
  minStep : α
  /-- Extrapolation starts with a step of this fraction of a coordinate's magnitude. -/
  riddersRelativeStep : α
  /-- It starts with at least such a step. -/
  riddersMinStep : α
  /-- Extrapolation uses at most so many steps. -/
  riddersLevels : Nat
  /-- It stops as soon as the estimate changes by less. -/
  riddersTolerance : α
  /-- Each of its steps is the one before, divided by this. -/
  riddersShrink : α
  /-- The number of workers asked for, as it was given. -/
  workers : Setting
  relativeStep_pos : Scalar.lt Scalar.zero relativeStep = true
  minStep_pos : Scalar.lt Scalar.zero minStep = true
  riddersRelativeStep_pos : Scalar.lt Scalar.zero riddersRelativeStep = true
  riddersMinStep_pos : Scalar.lt Scalar.zero riddersMinStep = true
  riddersTolerance_pos : Scalar.lt Scalar.zero riddersTolerance = true
  two_le_riddersLevels : 2 ≤ riddersLevels
  one_lt_riddersShrink : Scalar.lt Scalar.one riddersShrink = true

/-- The names of the settings. -/
def OptionsDraft.names : List String :=
  ["scheme", "relative_step", "min_absolute_step", "ridders_relative_initial_step",
    "ridders_min_initial_step", "ridders_max_extrapolations", "ridders_epsilon",
    "ridders_shrink_factor", "n_workers"]

namespace DiffOptions

variable {α : Type} [Scalar α]

/-- A setting that has to be a positive number. -/
def positive (setting : String) (x : Option α) :
    Except Fault { x : α // Scalar.lt Scalar.zero x = true } :=
  match x with
  | none => throw .notNumeric
  | some x =>
    if h : Scalar.lt Scalar.zero x = true then return ⟨x, h⟩
    else throw (.argument (.notPositive setting (Scalar.text x)))

/-- A setting of which at least two are needed. -/
def atLeastTwo (levels : Setting) : Except Fault { n : Nat // 2 ≤ n } := do
  let n ← levels.toInt
  if h : 2 ≤ n then return ⟨n.toNat, by omega⟩ else throw (.argument .tooFewLevels)

/-- A setting that has to be a number greater than one. -/
def aboveOne (x : Option α) : Except Fault { x : α // Scalar.lt Scalar.one x = true } :=
  match x with
  | none => throw .notNumeric
  | some x =>
    if h : Scalar.lt Scalar.one x = true then return ⟨x, h⟩
    else throw (.argument .shrinkFactor)

/-- Accepts settings, or refuses the first one that is not in order. -/
def ofDraft (d : OptionsDraft α) : Except Fault (DiffOptions α) := do
  match d.scheme with
  | none => throw (.malformed .scheme)
  | some scheme =>
    let relativeStep ← positive "relative_step" d.relativeStep
    let minStep ← positive "min_absolute_step" d.minStep
    let riddersRelativeStep ← positive "ridders_relative_initial_step" d.riddersRelativeStep
    let riddersMinStep ← positive "ridders_min_initial_step" d.riddersMinStep
    let riddersTolerance ← positive "ridders_epsilon" d.riddersTolerance
    let riddersLevels ← atLeastTwo d.riddersLevels
    let riddersShrink ← aboveOne d.riddersShrink
    return {
      scheme
      relativeStep := relativeStep.val
      minStep := minStep.val
      riddersRelativeStep := riddersRelativeStep.val
      riddersMinStep := riddersMinStep.val
      riddersLevels := riddersLevels.val
      riddersTolerance := riddersTolerance.val
      riddersShrink := riddersShrink.val
      workers := d.workers
      relativeStep_pos := relativeStep.property
      minStep_pos := minStep.property
      riddersRelativeStep_pos := riddersRelativeStep.property
      riddersMinStep_pos := riddersMinStep.property
      riddersTolerance_pos := riddersTolerance.property
      two_le_riddersLevels := riddersLevels.property
      one_lt_riddersShrink := riddersShrink.property }

/-- Accepted settings as a caller would give them. -/
def draft (o : DiffOptions α) : OptionsDraft α where
  scheme := some o.scheme
  relativeStep := some o.relativeStep
  minStep := some o.minStep
  riddersRelativeStep := some o.riddersRelativeStep
  riddersMinStep := some o.riddersMinStep
  riddersLevels := .count o.riddersLevels
  riddersTolerance := some o.riddersTolerance
  riddersShrink := some o.riddersShrink
  workers := o.workers

theorem positive_some {setting : String} {x : α} (h : Scalar.lt Scalar.zero x = true) :
    positive setting (some x) = .ok ⟨x, h⟩ := dif_pos h

theorem atLeastTwo_count {n : Nat} (h : 2 ≤ n) : atLeastTwo (.count n) = .ok ⟨n, h⟩ := by
  have hn : (2 : Int) ≤ n := by omega
  simp [atLeastTwo, bind, Except.bind, pure, Except.pure, hn]

theorem aboveOne_some {x : α} (h : Scalar.lt Scalar.one x = true) :
    aboveOne (some x) = .ok ⟨x, h⟩ := dif_pos h

theorem ofDraft_draft (o : DiffOptions α) : ofDraft o.draft = .ok o := by
  simp only [ofDraft, draft, positive_some o.relativeStep_pos, positive_some o.minStep_pos,
    positive_some o.riddersRelativeStep_pos, positive_some o.riddersMinStep_pos,
    positive_some o.riddersTolerance_pos, atLeastTwo_count o.two_le_riddersLevels,
    aboveOne_some o.one_lt_riddersShrink]
  rfl

/-- The step, or the first of the steps, for a coordinate of some magnitude. -/
def stepSize (o : DiffOptions α) (magnitude : α) : α :=
  match o.scheme with
  | .ridders =>
    Scalar.orLarger (o.riddersRelativeStep * Scalar.abs magnitude) o.riddersMinStep
  | _ => Scalar.orLarger (o.relativeStep * Scalar.abs magnitude) o.minStep

/-- The settings, as messages show them. -/
def shown (o : DiffOptions α) : String :=
  "NumericDiffOptions(scheme='" ++ o.scheme.name ++ "', relative_step=" ++
    Scalar.text o.relativeStep ++ ", min_absolute_step=" ++ Scalar.text o.minStep ++
    ", n_workers=" ++ o.workers.shown ++ ")"

end DiffOptions

end JacobianAudit
