/-
**Estimates of quadratic residuals.**

The Jacobian that is estimated for a block is put together from its columns, in whatever order these
were worked out. If every column is the derivative of the residuals along its tangent coordinate,
the whole is the true Jacobian times the derivative of the manifold's step. All that can come
between is memory: there has to be an array of every shape that is asked for.

Main definitions:

* `JacobianAudit.ambientJacobian`, `JacobianAudit.trueJacobian` — the true Jacobian along the
  entries and along the tangent coordinates of a block;
* `JacobianAudit.DiffOptions.evaluations` — how many evaluations an estimate takes.

Main results:

* `JacobianAudit.ofColumns_trueColumn` — the true Jacobian, column by column;
* `JacobianAudit.estimate_gives` — **the estimate is the true Jacobian**.
-/

import JacobianAudit.Proofs.Memory
import JacobianAudit.Proofs.Quadratics

set_option autoImplicit false

namespace JacobianAudit

open MvPolynomial

variable [Inexact] {σ : Type} {meter : σ → ℕ} {unit : ℕ} {sizes : List ℕ} {p : List Residual}

/-! ### The true Jacobian -/

/-- The true Jacobian of polynomial residuals along the entries of a block. -/
noncomputable def ambientJacobian (p : List Residual) (blocks : List (List Exact)) (k n : ℕ) :
    Tensor Exact :=
  .matrix p.length n fun r i => ⟨partialAt p blocks k r i⟩

/-- The true Jacobian of polynomial residuals along the tangent coordinates of a block. -/
noncomputable def trueJacobian (p : List Residual) (blocks : List (List Exact)) (k n : ℕ)
    (manifold : Option (Manifold σ Exact)) : Tensor Exact :=
  localJacobian p.length n manifold (partialAt p blocks k)

/-- The one is the projection of the other. -/
theorem project_ambientJacobian_gives {blocks : List (List Exact)} {k : ℕ} {block : List Exact}
    {manifold : Option (Manifold σ Exact)} (hm : MovesStraight manifold block.length)
    (hroom : ∀ m ∈ manifold, m.room = .ok ()) :
    (project (.array (ambientJacobian p blocks k block.length)) manifold (.vector block)).Gives
      meter (trueJacobian p blocks k block.length manifold) 0 := by
  have hentries : ∀ r < p.length, ∀ i < block.length,
      ((ambientJacobian p blocks k block.length).get [r, i]).value = partialAt p blocks k r i := by
    intro r hr i hi
    rw [ambientJacobian, Tensor.get_matrix _ hr hi]
  rw [trueJacobian, ← localJacobian_congr hentries]
  exact project_gives hm hroom rfl

/-- Where there is no coordinate to move along, the true Jacobian has no columns. -/
theorem zeros_eq_trueJacobian (hrows : Shape.Held [p.length]) {n : ℕ}
    {manifold : Option (Manifold σ Exact)} (hwidth : width manifold n = 0)
    (blocks : List (List Exact)) (k : ℕ) :
    Tensor.zeros [.count p.length, .count 0] = .ok (trueJacobian p blocks k n manifold) := by
  have hrank : [p.length, 0].length ≤ Shape.maxRank := show 2 ≤ 64 from by decide
  refine (zeros_eq hrows.without_columns hrank).trans (congrArg Except.ok ?_)
  refine Tensor.ext_get rfl ?_ fun r _ j hj => absurd hj (Nat.not_lt_zero j)
  rw [trueJacobian, localJacobian, hwidth]
  rfl

/-- An entry of a column is the sum over the entries that move. -/
theorem getElem_trueColumn {site : Site σ Exact} {i r : ℕ} (hr : r < p.length) :
    ((site.trueColumn p i)[r]?.getD Scalar.nan).value =
      projected site.block.length site.manifold (partialAt p site.blocks site.index) r i := by
  simp [Site.trueColumn, Site.headingAlong, slope_heading, projected, partialAt, hr]

/-- **The true Jacobian, column by column.** -/
theorem ofColumns_trueColumn (site : Site σ Exact)
    (ht : site.tangentSize = width site.manifold site.block.length) :
    ofColumns p.length ((List.range site.tangentSize).map (site.trueColumn p)) =
      trueJacobian p site.blocks site.index site.block.length site.manifold := by
  have hcolumns : (ofColumns p.length ((List.range site.tangentSize).map
      (site.trueColumn p))).shape = [p.length, site.tangentSize] := by simp [ofColumns]
  refine Tensor.ext_get hcolumns (by simp [trueJacobian, localJacobian, ht])
    fun r hr j hj => Exact.ext ?_
  have hlength : j < ((List.range site.tangentSize).map (site.trueColumn p)).length := by
    simpa using hj
  rw [trueJacobian, get_localJacobian hr (ht ▸ hj), ofColumns, Tensor.get_matrix _ hr hlength,
    ← getElem_trueColumn hr]
  simp [hj]

/-! ### Estimates -/

/-- The coordinates of a block that moves along straight lines can be gone through. -/
theorem exists_scales {block : List Exact} {manifold : Option (Manifold σ Exact)}
    (hm : MovesStraight manifold block.length) (hheld : Shape.Held [block.length])
    (shown : String) :
    ∃ scales, tangentScales shown block manifold = .ok (some scales) ∧
      scales.length = width manifold block.length := by
  cases manifold with
  | none => exact ⟨_, rfl, List.length_map _⟩
  | some m =>
      obtain ⟨hstraight, hheight⟩ := hm m rfl
      have hsize : m.ambientSize = .count block.length := by
        rw [Manifold.ambientSize_eq hstraight, hheight]
      have hwidth : Shape.Held [m.width] := hheld.mono (.cons (width_le hm) .nil)
      exact ⟨_, tangentScales_eq hsize (Manifold.tangentSize_eq hstraight) hwidth shown,
        List.length_replicate⟩

/-- How many evaluations an estimate with so many columns takes, if the residuals at the point are
given or not. -/
def DiffOptions.evaluations (o : DiffOptions Exact) (given : Bool) (columns : ℕ) : ℕ :=
  if columns = 0 then 0
  else (if o.scheme = .forward ∧ given = false then 1 else 0) + columns * o.scheme.evaluations

/-- The residuals that a forward difference starts from. -/
theorem baseResiduals_gives {e : Evaluator σ Exact} (he : e.Computes meter unit sizes p)
    {o : DiffOptions Exact} {blocks : List (List Exact)} (hb : blocks.map List.length = sizes)
    {given : Option (Supplied Exact)} (hgiven : ∀ residuals ∈ given, o.scheme = .forward →
      residuals.entries = .ok (valuesAt p blocks)) :
    ∃ base, (baseResiduals e blocks o given).Gives meter base
        ((if o.scheme = .forward ∧ given.isSome = false then 1 else 0) * unit) ∧
      (o.scheme = .forward → base = valuesAt p blocks) := by
  unfold baseResiduals
  cases hscheme : o.scheme with
  | forward =>
      refine ⟨valuesAt p blocks, ?_, fun _ => rfl⟩
      cases given with
      | none =>
          rw [if_pos ⟨rfl, rfl⟩, Nat.one_mul]
          exact he.residualsOnly_gives hb
      | some residuals =>
          rw [if_neg (by simp), Nat.zero_mul]
          exact .ofExcept (he.read_eq (hgiven residuals rfl hscheme))
  | _ =>
      refine ⟨[], ?_, fun h => nomatch h⟩
      rw [if_neg (by simp), Nat.zero_mul]
      exact .pure []

/-- All columns, in whatever order they are worked out. -/
theorem columns_gives {site : Site σ Exact} (h : site.Regular meter unit sizes p)
    {o : DiffOptions Exact} (hp : ∀ q ∈ p, q.totalDegree ≤ o.scheme.degree)
    (hw : ∃ n, Workers.requested o.workers = .ok n) {base : List Exact}
    (hbase : o.scheme = .forward → base = valuesAt p site.blocks) {scales : List Exact}
    (hs : scales.length = site.tangentSize) :
    (Workers.run o.workers (scales.zipIdx.map fun q => site.column o base q.2 q.1)).Gives meter
      ((List.range site.tangentSize).map (site.trueColumn p))
      (site.tangentSize * (o.scheme.evaluations * unit)) := by
  -- the scale decides how long the step is, and the outcome does not depend on that
  have htasks : (scales.zipIdx.map fun q => site.column o base q.2 q.1) =
      (List.range site.tangentSize).map fun i =>
        site.column o base i (scales[i]?.getD Scalar.zero) := by
    refine List.ext_getElem (by simp [hs]) fun i hi hi' => ?_
    have hlt : i < scales.length := by simpa using hi
    simp [hlt]
  rw [htasks]
  exact Workers.run_gives hw fun i hi => Site.column_gives h hp hbase hi _

/-- **The estimate is the true Jacobian**, on however many workers. -/
theorem estimate_gives {e : Evaluator σ Exact} (he : e.Computes meter unit sizes p)
    {o : DiffOptions Exact} (hp : ∀ q ∈ p, q.totalDegree ≤ o.scheme.degree)
    (hw : ∃ n, Workers.requested o.workers = .ok n) (hrows : Shape.Held [p.length])
    {parameters : List (Supplied Exact)} {blocks : List (List Exact)}
    (hb : readBlocks parameters e.blockSizes = .ok blocks) {k : ℕ} {block : List Exact}
    (hk : blocks[k]? = some block) (hheld : Shape.Held [block.length])
    {manifold : Option (Manifold σ Exact)} (hm : MovesStraight manifold block.length)
    {given : Option (Supplied Exact)} (hgiven : ∀ residuals ∈ given, o.scheme = .forward →
      residuals.entries = .ok (valuesAt p blocks)) :
    (estimate e parameters (.count k) manifold o given).Gives meter
      (trueJacobian p blocks k block.length manifold)
      (o.evaluations given.isSome (width manifold block.length) * unit) := by
  have hlengths : blocks.map List.length = sizes := by
    rw [he.blockSizes_eq] at hb
    exact lengths_of_readBlocks hb
  obtain ⟨scales, hscales, hwidth⟩ := exists_scales hm hheld (Setting.count k).shown
  obtain ⟨hlt, hget⟩ := List.getElem?_eq_some_iff.1 hk
  have hblock : blockAt blocks (.count k) = .ok (k, block) := hget ▸ blockAt_count blocks k hlt
  unfold estimate
  refine (Action.Gives.ofExcept hb).bind_free ((Action.Gives.ofExcept hblock).bind_free ?_)
  refine (Action.Gives.ofExcept hscales).bind_free ?_
  cases scales with
  | nil =>
      have hzeros := zeros_eq_trueJacobian hrows hwidth.symm blocks k
      rw [he.numResiduals_eq, ← hwidth]
      simpa [DiffOptions.evaluations] using Action.Gives.ofExcept hzeros
  | cons scale rest =>
      obtain ⟨base, hbase, hforward⟩ := baseResiduals_gives he hlengths hgiven
      have hregular : Site.Regular ⟨e, blocks, k, (Setting.count k).shown, block, manifold,
          (scale :: rest).length⟩ meter unit sizes p := ⟨he, hlengths, hk, hm, hwidth⟩
      have hcolumns := columns_gives hregular hp hw hforward rfl
      have hrows' : e.numResiduals.extent = .ok (p.length : ℤ) := by
        rw [he.numResiduals_eq]
        exact hrows.extent_eq List.mem_cons_self
      have hne : width manifold block.length ≠ 0 := by
        rw [← hwidth]
        exact Nat.succ_ne_zero _
      -- the residuals at the point come first, then one task for each column
      rw [DiffOptions.evaluations, if_neg hne, Nat.add_mul, Nat.mul_assoc, ← hwidth]
      refine hbase.bind ((Action.Gives.pure _).bind_free ?_)
      rw [← ofColumns_trueColumn ⟨e, blocks, k, (Setting.count k).shown, block, manifold,
        (scale :: rest).length⟩ hwidth]
      refine hcolumns.bind (n := 0) ?_
      exact (Action.Gives.ofExcept hrows').bind_free (.pure _)

end JacobianAudit
