/-
**Formulas.**

Residuals, Jacobians and manifolds may be written down as formulas instead of being supplied as
functions. An expression denotes a scalar, given a list of vectors and the settings of dials; a tree
nests expressions into an array. Evaluation goes from left to right. An expression may decline, and
the whole formula has no value then; reading an entry that does not exist is a fault.

Main definitions:

* `JacobianAudit.Expression`, `JacobianAudit.Expression.eval` — scalars;
* `JacobianAudit.Tree`, `JacobianAudit.Tree.eval` — arrays;
* `JacobianAudit.Scope` — what formulas can refer to.
-/

import JacobianAudit.Tensor.Nested

set_option autoImplicit false

namespace JacobianAudit

/-- The arithmetic operations. -/
inductive Operation where
  | add
  | sub
  | mul
  | div
  deriving DecidableEq

/-- A scalar formula. -/
inductive Expression (α : Type) where
  | number (x : α)
  /-- A formula that cannot be read, and why: a fault when it is evaluated and not before. -/
  | unreadable (fault : Fault)
  /-- An entry of one of the vectors. A negative number counts from the end. -/
  | entry (vector index : Int)
  /-- The setting of a dial. -/
  | dial (index : Int)
  /-- No value: the whole formula declines. -/
  | decline
  /-- Chooses between two expressions by comparing two others; only the chosen one is evaluated. -/
  | ifLess (a b yes no : Expression α)
  | neg (a : Expression α)
  | abs (a : Expression α)
  | sqrt (a : Expression α)
  /-- An operation over several operands, from the left. -/
  | fold (op : Operation) (first : Expression α) (rest : List (Expression α))

/-- Formulas nested into an array. -/
inductive Tree (α : Type) where
  | nothing
  | leaf (e : Expression α)
  | node (items : List (Tree α))

/-- Why a formula has no value. -/
inductive NoValue where
  | declined
  | faulted (fault : Fault)

/-- What formulas can refer to. -/
structure Scope (α : Type) where
  vectors : List (List α)
  dials : List α

variable {α : Type} [Scalar α]

/-- The operation on two scalars. -/
def Operation.apply : Operation → α → α → α
  | add => (· + ·)
  | sub => (· - ·)
  | mul => (· * ·)
  | div => (· / ·)

/-- The place of an element, which has to exist, by its number. A negative number counts from the
end. -/
def placeOf {β : Type} (items : List β) (index : Int) : Except Fault (Fin items.length) :=
  let place := if index < 0 then index + items.length else index
  match place with
  | .ofNat i => if h : i < items.length then .ok ⟨i, h⟩ else .error .entryIndex
  | .negSucc _ => .error .entryIndex

/-- The element with a number. -/
def element {β : Type} (items : List β) (index : Int) : Except Fault β :=
  (placeOf items index).map items.get

namespace Expression

mutual

/-- The value of an expression. -/
def eval (scope : Scope α) : Expression α → Except NoValue α
  | number x => return x
  | unreadable fault => throw (.faulted fault)
  | entry vector index =>
    (element scope.vectors vector >>= fun entries => element entries index).mapError .faulted
  | dial index => (element scope.dials index).mapError .faulted
  | decline => throw .declined
  | ifLess a b yes no => do
    let x ← eval scope a
    let y ← eval scope b
    if Scalar.lt x y then eval scope yes else eval scope no
  | neg a => return -(← eval scope a)
  | abs a => return Scalar.abs (← eval scope a)
  | sqrt a => do
    let x ← eval scope a
    return if Scalar.le Scalar.zero x then Scalar.sqrt x else Scalar.nan
  | fold op first rest => do evalFold scope op (← eval scope first) rest

/-- The value of an operation, given the value of the operands so far. -/
def evalFold (scope : Scope α) (op : Operation) (value : α) :
    List (Expression α) → Except NoValue α
  | [] => return value
  | next :: rest => do evalFold scope op (op.apply value (← eval scope next)) rest

end

end Expression

namespace Tree

mutual

/-- The numbers that a tree stands for. -/
def evalNested (scope : Scope α) : Tree α → Except NoValue (Nested α)
  | nothing => return .missing
  | leaf e => return .number (← e.eval scope)
  | node items => return .list (← evalItems scope items)

/-- The numbers that a list of trees stands for. -/
def evalItems (scope : Scope α) : List (Tree α) → Except NoValue (List (Nested α))
  | [] => return []
  | item :: rest => return (← evalNested scope item) :: (← evalItems scope rest)

end

/-- The array that a tree stands for; nothing if that is all it says. -/
def eval (scope : Scope α) : Tree α → Except NoValue (Supplied α)
  | nothing => return .nothing
  | tree => return .ofNested (← tree.evalNested scope)

/-- A formula that declines stands for nothing at all. -/
def supplied (scope : Scope α) (tree : Tree α) : Except Fault (Supplied α) :=
  match tree.eval scope with
  | .ok value => .ok value
  | .error .declined => .ok .nothing
  | .error (.faulted fault) => .error fault

end Tree

end JacobianAudit
