/-
**Agreement of sizes.**

What callers declare and what they hand over has to agree: the number and the sizes of parameter
blocks, the number of residuals, the shapes of matrices, and the dimensions of manifolds. Any array
with the right number of entries serves as a vector, and a vector with the right number of entries
serves as a matrix.

Main definitions:

* `JacobianAudit.readBlocks` — parameter blocks as vectors of the declared sizes;
* `JacobianAudit.checkSizes` — declared block sizes;
* `JacobianAudit.readResiduals`, `JacobianAudit.readMatrix` — what an evaluator answered;
* `JacobianAudit.BlockSpace` — a parameter block and the manifold it lives on.
-/

import JacobianAudit.Evaluator.Basic
import JacobianAudit.Manifold.Basic
import JacobianAudit.Tensor.Declared

set_option autoImplicit false

namespace JacobianAudit

variable {σ α : Type}

/-! ### Declared sizes -/

/-- Block sizes as an evaluator may declare them: there is a block, and each one is not empty. -/
def checkSizes (sizes : List Int) : Except Fault (List Int) :=
  if sizes.isEmpty then throw (.size .noBlocks)
  else
    match sizes.zipIdx.find? fun p => p.1 ≤ 0 with
    | some (size, k) => throw (.size (.blockNotPositive k size))
    | none => return sizes

/-- Block sizes that were written as settings. -/
def readSizes (sizes : List Setting) : Except Fault (List Int) := do
  checkSizes (← sizes.mapM Setting.toInt)

/-! ### Arrays -/

section Read

variable [Scalar α]

/-- One parameter block as a vector of the declared size. -/
def readBlock (k : Nat) (block : Supplied α) (size : Setting) : Except Fault (List α) := do
  let entries ← block.entries
  if size.equals (.count entries.length) then return entries
  else throw (.size (.blockSize k entries.length size.shown))

/-- Parameter blocks as vectors of the declared sizes. -/
def readBlocks (parameters : List (Supplied α)) (sizes : List Setting) :
    Except Fault (List (List α)) :=
  if parameters.length = sizes.length then
    (parameters.zip sizes).zipIdx.mapM fun p => readBlock p.2 p.1.1 p.1.2
  else throw (.size (.blockCount sizes.length parameters.length))

/-- Residuals as a vector of the declared length. -/
def readResiduals (residuals : Supplied α) (declared : Setting) : Except Fault (List α) := do
  let entries ← residuals.entries
  if declared.equals (.count entries.length) then return entries
  else throw (.size (.residualCount entries.length declared.shown))

/-- A vector with as many entries as a matrix of the declared shape has. -/
def isFlatMatrix (t : Tensor α) (rows cols : Setting) : Except Fault Bool := do
  match t.shape with
  | [n] =>
    match ← rows.times cols with
    | some product => return product.equals (.count n)
    | none => return false
  | _ => return false

/-- An array of the declared shape of a matrix. -/
def isMatrix (t : Tensor α) (rows cols : Setting) : Bool :=
  match t.shape with
  | [m, n] => rows.equals (.count m) && cols.equals (.count n)
  | _ => false

/-- A matrix of the declared shape. A vector with as many entries is read row by row. -/
def readMatrix (matrix : Supplied α) (rows cols : Setting) (name : String) :
    Except Fault (Tensor α) := do
  let t ← matrix.read
  if ← isFlatMatrix t rows cols then
    let shape ← Shape.ofSettings [rows, cols]
    if h : t.data.length = shape.size then return t.reshape shape h
    else throw (.malformed .tooLarge)
  else if isMatrix t rows cols then return t
  else throw (.size (.matrixShape name t.shape rows.listed cols.listed))

end Read

/-! ### Manifolds -/

/-- A parameter block and the manifold it lives on, if there is one. The manifold's points are as
large as the block, and its tangent vectors no larger. -/
structure BlockSpace (σ α : Type) where
  size : Setting
  manifold : Option (Manifold σ α)
  ambient_eq : ∀ m ∈ manifold, m.ambientSize.equals size = true
  tangent_range : ∀ m ∈ manifold, m.tangentSize.within (.count 0) m.ambientSize = .ok true

namespace BlockSpace

/-- The number of directions in which the block can be moved. -/
def tangentSize (space : BlockSpace σ α) : Setting :=
  match space.manifold with
  | none => space.size
  | some m => m.tangentSize

/-- A block without a manifold: it can be moved along every entry. -/
def plain (size : Setting) : BlockSpace σ α := ⟨size, none, by simp, by simp⟩

/-- A block and its manifold, if they fit. -/
def fit (k : Nat) (size : Setting) : Option (Manifold σ α) → Except Fault (BlockSpace σ α)
  | none => return plain size
  | some m =>
    if ha : m.ambientSize.equals size = true then
      match ht : m.tangentSize.within (.count 0) m.ambientSize with
      | .ok true => return ⟨size, some m, by simpa using ha, by simpa using ht⟩
      | .ok false =>
        throw (.size (.manifoldTangent k m.tangentSize.shown m.ambientSize.shown))
      | .error fault => throw fault
    else throw (.size (.manifoldAmbient k m.ambientSize.shown size.shown))

/-- Blocks and their manifolds, if they fit. No list at all means no manifolds. -/
def fitAll (manifolds : Option (List (Option (Manifold σ α)))) (sizes : List Setting) :
    Except Fault (List (BlockSpace σ α)) :=
  match manifolds with
  | none => return sizes.map plain
  | some manifolds =>
    if manifolds.length = sizes.length then
      (manifolds.zip sizes).zipIdx.mapM fun p => fit p.2 p.1.2 p.1.1
    else throw (.size (.manifoldCount manifolds.length sizes.length))

end BlockSpace

end JacobianAudit
