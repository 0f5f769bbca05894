/-
**Arrays as they are supplied.**

Callers write arrays as numbers in nested lists. Lists whose siblings agree in length and depth are
a rectangular array; others are ragged. Ragged lists and lists nested too deeply cannot be read,
which is a fault when they are read and not before. A caller's function may also answer with
nothing, which reads as a number that is missing.

Main definitions:

* `JacobianAudit.Nested` — numbers in nested lists, and `JacobianAudit.Nested.toTensor?`;
* `JacobianAudit.Nested.item`, `JacobianAudit.Nested.toNumber` — looking up without reading the
  whole as an array;
* `JacobianAudit.Supplied` — what a caller hands over where an array is expected;
* `JacobianAudit.Supplied.read` — the array that was meant.
-/

import JacobianAudit.Tensor.Basic

set_option autoImplicit false

namespace JacobianAudit

/-- Numbers in nested lists; a number may be missing. -/
inductive Nested (α : Type) where
  | missing
  | number (x : α)
  | list (items : List (Nested α))

namespace Nested

variable {α : Type} [Scalar α]

mutual

/-- The rectangular array, unless the lists are ragged. A number that is missing takes its place. -/
def toTensor? : Nested α → Option (Tensor α)
  | missing => some (Tensor.scalar Scalar.nan)
  | number x => some (Tensor.scalar x)
  | list items => (toTensors? items).bind Tensor.stack?

/-- The rectangular arrays of a list's items. -/
def toTensors? : List (Nested α) → Option (List (Tensor α))
  | [] => some []
  | item :: rest => do return (← toTensor? item) :: (← toTensors? rest)

end

/-- An item of a list. -/
def item : Nested α → Nat → Except Fault (Nested α)
  | list items, i =>
    match items[i]? with
    | some x => .ok x
    | none => .error .entryIndex
  | _, _ => .error .notList

/-- A number that is not missing. -/
def toNumber : Nested α → Except Fault α
  | number x => .ok x
  | _ => .error .notNumeric

end Nested

/-- What a caller hands over where an array is expected. -/
inductive Supplied (α : Type) where
  | nothing
  | array (t : Tensor α)
  /-- What cannot be read, and why. -/
  | unreadable (fault : Fault)

namespace Supplied

variable {α : Type}

/-- A vector, handed over as an array. -/
def vector (xs : List α) : Supplied α := .array (.vector xs)

/-- Was nothing handed over? -/
def isNothing : Supplied α → Bool
  | nothing => true
  | _ => false

variable [Scalar α]

/-- Nested lists, handed over as an array. -/
def ofNested (literal : Nested α) : Supplied α :=
  match literal.toTensor? with
  | none => .unreadable (.malformed .ragged)
  | some t =>
    if Shape.maxRank < t.shape.length then .unreadable (.malformed .tooLarge) else .array t

/-- The array that was meant. Nothing is a number that is missing. -/
def read : Supplied α → Except Fault (Tensor α)
  | nothing => .ok (Tensor.scalar Scalar.nan)
  | array t => .ok t
  | unreadable fault => .error fault

@[simp] theorem read_array (t : Tensor α) : (array t).read = .ok t := rfl

/-- The entries of the array that was meant, in row-major order. -/
def entries (s : Supplied α) : Except Fault (List α) := do return (← s.read).data

end Supplied

end JacobianAudit
