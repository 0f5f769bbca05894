/-
**Binary64 numbers as scalars.**

The arithmetic of the library on binary64 numbers: every operation rounds once to the nearest
number, ties to even, and a comparison with what is not a number is false.

Main definitions:

* `JacobianAudit.instScalarFloat` — the operations;
* `JacobianAudit.DiffOptions.standard`, `JacobianAudit.OptionsDraft.standard` — the settings that
  are used where none are given.
-/

import JacobianAudit.Binary64.Circular
import JacobianAudit.Binary64.Power
import JacobianAudit.Difference.Options

set_option autoImplicit false

namespace JacobianAudit

instance instScalarFloat : Scalar Float where
  zero := 0.0
  one := 1.0
  nan := 0.0 / 0.0
  abs := Float.abs
  le x y := decide (x ≤ y)
  isFinite := Float.isFinite
  sqrt := Float.sqrt
  sin := Binary64.sin
  cos := Binary64.cos
  power := Binary64.power
  quantity := Binary64.quantity
  text := Binary64.text

/-- The accepted settings that are used where none are given. -/
def DiffOptions.standard : DiffOptions Float where
  scheme := .ridders
  relativeStep := 1e-6
  minStep := 1e-6
  riddersRelativeStep := 1e-2
  riddersMinStep := 1e-2
  riddersLevels := 10
  riddersTolerance := 1e-12
  riddersShrink := 2.0
  workers := .whole 1
  relativeStep_pos := by decide +kernel
  minStep_pos := by decide +kernel
  riddersRelativeStep_pos := by decide +kernel
  riddersMinStep_pos := by decide +kernel
  riddersTolerance_pos := by decide +kernel
  two_le_riddersLevels := by decide
  one_lt_riddersShrink := by decide +kernel

/-- The settings that a caller gives by giving none. -/
def OptionsDraft.standard : OptionsDraft Float := DiffOptions.standard.draft

example : DiffOptions.ofDraft OptionsDraft.standard = .ok DiffOptions.standard :=
  DiffOptions.ofDraft_draft DiffOptions.standard

end JacobianAudit
