/-
**Numeric Jacobians of one parameter block.**

The block is moved along its tangent coordinates, through its manifold if it has one, so the
columns are derivatives with respect to tangent coordinates. Each column is a task of its own that
works on its own copy of the block.

Main definitions:

* `JacobianAudit.Site` — where a derivative is taken;
* `JacobianAudit.Site.moved` — the block after a step along a tangent coordinate;
* `JacobianAudit.Site.residuals` — the residuals after such a step;
* `JacobianAudit.Site.column` — one column of the Jacobian;
* `JacobianAudit.blockAt`, `JacobianAudit.tangentScales` — the block and its tangent coordinates;
* `JacobianAudit.estimate` — the Jacobian.
-/

import JacobianAudit.Difference.Ridders
import JacobianAudit.Evaluator.Sizes
import JacobianAudit.Workers.Pool

set_option autoImplicit false

namespace JacobianAudit

variable {σ α : Type} [Scalar α]

/-- Residuals alone; it is a fault if there are none. -/
def residualsOnly (e : Evaluator σ α) (parameters : List (Supplied α)) : Action σ (List α) := do
  match ← e.evaluate parameters none with
  | none => throw (.evaluation .residuals)
  | some answer => Action.ofExcept (readResiduals answer.residuals e.numResiduals)

/-- Where a derivative is taken: an evaluator, a point, one of its blocks, and how that block is
moved. -/
structure Site (σ α : Type) where
  evaluator : Evaluator σ α
  blocks : List (List α)
  index : Nat
  /-- The index as messages show it. -/
  shown : String
  block : List α
  manifold : Option (Manifold σ α)
  tangentSize : Nat

namespace Site

/-- The tangent vector that is `step` along one coordinate. -/
def direction (site : Site σ α) (i : Nat) (step : α) : List α :=
  (List.range site.tangentSize).map fun j => if j = i then step else Scalar.zero

/-- The block after a step along tangent coordinate `i`. -/
def moved (site : Site σ α) (i : Nat) (step : α) : Action σ (List α) := do
  match site.manifold with
  | none => return List.zipWith (· + ·) site.block (site.direction i step)
  | some m =>
    match ← m.plus (.vector site.block) (.vector (site.direction i step)) with
    | .nothing => throw (.evaluation (.plus site.shown i))
    | reply =>
      let entries ← Action.ofExcept reply.entries
      if entries.length = site.block.length then return entries
      else throw (.size (.plusSize entries.length site.shown site.block.length))

/-- The residuals after a step along tangent coordinate `i`. -/
def residuals (site : Site σ α) (i : Nat) (step : α) : Action σ (List α) := do
  let block ← site.moved i step
  match ← site.evaluator.evaluate ((site.blocks.set site.index block).map .vector) none with
  | none => throw (.evaluation (.perturbed site.shown i (Scalar.quantity step)))
  | some answer => Action.ofExcept (readResiduals answer.residuals site.evaluator.numResiduals)

/-- The central difference with a given step. -/
def centralDifference (site : Site σ α) (i : Nat) (step : α) : Action σ (List α) := do
  let ahead ← site.residuals i step
  let behind ← site.residuals i (-step)
  return (List.zipWith (· - ·) ahead behind).map (· / (Scalar.two * step))

/-- The forward difference with a given step, from the residuals at the point. -/
def forwardDifference (site : Site σ α) (base : List α) (i : Nat) (step : α) :
    Action σ (List α) := do
  let ahead ← site.residuals i step
  return (List.zipWith (· - ·) ahead base).map (· / step)

/-- The derivative of the residuals along tangent coordinate `i`, whose scale decides the step. -/
def column (site : Site σ α) (o : DiffOptions α) (base : List α) (i : Nat) (scale : α) :
    Action σ (List α) := do
  let h := o.stepSize scale
  match o.scheme with
  | .forward => site.forwardDifference base i h
  | .central => site.centralDifference i h
  | .ridders =>
    return (← Ridders.derivative
      (fun step => do return .vector (← site.centralDifference i step)) h o).data

end Site

/-- The matrix with given columns. -/
def ofColumns (rows : Nat) (columns : List (List α)) : Tensor α :=
  .matrix rows columns.length fun i j => (columns[j]?.bind fun column => column[i]?).getD Scalar.nan

/-- The block that an index names, and its number. An index within the range has to be an
integer. -/
def blockAt (blocks : List (List α)) (index : Setting) : Except Fault (Nat × List α) := do
  let count := Setting.count blocks.length
  if (← index.within (.count 0) count) && !index.equals count then
    let k := (← index.index).toNat
    match blocks[k]? with
    | some block => return (k, block)
    | none => throw (.blockIndex index.shown blocks.length)
  else throw (.blockIndex index.shown blocks.length)

theorem blockAt_count {β : Type} (blocks : List (List β)) (k : Nat) (h : k < blocks.length) :
    blockAt blocks (.count k) = .ok (k, blocks[k]) := by
  have hk : (0 : Int) ≤ k ∧ (k : Int) ≤ blocks.length := by omega
  have hn : ¬(k : Int) = blocks.length := by omega
  simp [blockAt, bind, Except.bind, pure, Except.pure, hk, hn, h]

/-- The number of tangent coordinates of a block and the scale of each: the entry's magnitude
without a manifold; with one, the largest magnitude of the block. Where a manifold declares a
sequence of extents, its coordinates cannot be gone through one by one. -/
def tangentScales (shown : String) (block : List α) (manifold : Option (Manifold σ α)) :
    Except Fault (Option (List α)) := do
  match manifold with
  | none => return some (block.map Scalar.abs)
  | some m =>
    if m.ambientSize.equals (.count block.length) then
      let shape ← Shape.ofSettings m.tangentSize.extents
      if m.tangentSize.isSequence then return none
      else
        return some (List.replicate shape.size
          (Scalar.largest Scalar.zero (block.map Scalar.abs)))
    else throw (.size (.manifoldUnfit m.ambientSize.shown shown block.length))

/-- The residuals that a forward difference starts from: those given, or those at the point. The
other schemes need none. -/
def baseResiduals (e : Evaluator σ α) (blocks : List (List α)) (o : DiffOptions α)
    (given : Option (Supplied α)) : Action σ (List α) := do
  match o.scheme, given with
  | .forward, none => residualsOnly e (blocks.map .vector)
  | .forward, some base => Action.ofExcept (readResiduals base e.numResiduals)
  | _, _ => return []

/-- The numeric Jacobian of the residuals with respect to the tangent space of one block. -/
def estimate (e : Evaluator σ α) (parameters : List (Supplied α)) (index : Setting)
    (manifold : Option (Manifold σ α)) (o : DiffOptions α) (base : Option (Supplied α)) :
    Action σ (Tensor α) := do
  let blocks ← Action.ofExcept (readBlocks parameters e.blockSizes)
  let (k, block) ← Action.ofExcept (blockAt blocks index)
  match ← Action.ofExcept (tangentScales index.shown block manifold) with
  | some [] => Action.ofExcept (Tensor.zeros [e.numResiduals, .count 0])
  | scales =>
    let base ← baseResiduals e blocks o base
    let scales ← Action.ofExcept (scales.elim (throw .notNumeric) pure)
    let site : Site σ α := ⟨e, blocks, k, index.shown, block, manifold, scales.length⟩
    let columns ← Workers.run o.workers
      (scales.zipIdx.map fun p => site.column o base p.2 p.1)
    let rows ← Action.ofExcept e.numResiduals.extent
    return ofColumns rows.toNat columns

end JacobianAudit
