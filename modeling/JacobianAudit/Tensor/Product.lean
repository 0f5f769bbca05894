/-
**Matrix products.**

Products are summed from left to right, starting at zero; a zero factor is multiplied like any
other.

Main definitions:

* `JacobianAudit.Tensor.dot` — the sum of products over an index range;
* `JacobianAudit.Tensor.matmul` — the product of two matrices;
* `JacobianAudit.Tensor.apply` — a matrix applied to a vector, or to every column of a stack of
  matrices;
* `JacobianAudit.Tensor.identity` — the identity matrix.

Main results:

* `JacobianAudit.Tensor.matmul_eq` — the product's entries in terms of those of the factors.
-/

import JacobianAudit.Tensor.Basic

set_option autoImplicit false

namespace JacobianAudit.Tensor

variable {α : Type} [Scalar α]

/-- The sum of products `f k * g k` for `k < n`. -/
def dot (n : Nat) (f g : Nat → α) : α := Scalar.sum ((List.range n).map fun k => f k * g k)

/-- The product of a matrix with `inner` columns and a matrix with `inner` rows. -/
def matmul (a : Tensor α) (rows inner cols : Nat) (b : Tensor α) : Tensor α :=
  let u := a.data.toArray
  let v := b.data.toArray
  matrix rows cols fun i j =>
    dot inner (fun k => entryAt a.shape u [i, k]) (fun k => entryAt b.shape v [k, j])

theorem matmul_eq (rows inner cols : Nat) (a b : Tensor α) :
    a.matmul rows inner cols b =
      matrix rows cols fun i j => dot inner (fun k => a.get [i, k]) (fun k => b.get [k, j]) := by
  simp [matmul]

/-- A matrix applied along the last axis but one, or to a vector along its only axis. -/
def apply (rows cols : Nat) (a : Tensor α) (v : Tensor α) : Except Fault (Tensor α) :=
  let u := a.data.toArray
  let w := v.data.toArray
  match v.shape.reverse with
  | [] => .error (.malformed .unbroadcastable)
  | [n] =>
    if n = cols then
      .ok (vector ((List.range rows).map fun i =>
        dot cols (fun k => entryAt a.shape u [i, k]) (fun k => entryAt v.shape w [k])))
    else .error (.malformed .unbroadcastable)
  | m :: n :: outer =>
    if n = cols then
      .ok (tabulate (outer.reverse ++ [rows, m]) fun index =>
        let before := index.take outer.length
        match index.drop outer.length with
        | [i, j] =>
          dot cols (fun k => entryAt a.shape u [i, k])
            (fun k => entryAt v.shape w (before ++ [k, j]))
        | _ => Scalar.nan)
    else .error (.malformed .unbroadcastable)

/-- The identity matrix. -/
def identity (n : Nat) : Tensor α :=
  matrix n n fun i j => if i = j then Scalar.one else Scalar.zero

end JacobianAudit.Tensor
