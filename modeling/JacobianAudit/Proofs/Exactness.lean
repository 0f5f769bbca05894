/-
**Probes of quadratic residuals.**

In exact arithmetic a probe of residuals of degree two does not depend on how derivatives are
estimated: every numeric Jacobian is the true one, so the verdict is about the evaluator's Jacobians
alone. It is yes exactly if each of them, along the tangent coordinates of its block, is within the
tolerance of the truth, and Jacobians without an error pass without a tolerance.

Main definitions:

* `JacobianAudit.Checker.Quadratic` — a checker of polynomial residuals;
* `JacobianAudit.Checker.Room` — there are the arrays that a probe makes;
* `JacobianAudit.Checker.NearTruth`, `JacobianAudit.Checker.Correct` — Jacobians that are within a
  tolerance of the true ones, and Jacobians without an error.

Main results:

* `JacobianAudit.Checker.exists_differentiates` — no block of such a probe meets a fault;
* `JacobianAudit.Checker.run_gives` — the probe answers, and what the answer means;
* `JacobianAudit.Checker.exact_on_quadratics` — **estimates and verdicts are exact**.
-/

import JacobianAudit.Proofs.Endings
import JacobianAudit.Proofs.Estimates
import JacobianAudit.Proofs.Verdict

set_option autoImplicit false

namespace JacobianAudit

open MvPolynomial

variable [Inexact] {σ : Type} {meter : σ → ℕ} {unit : ℕ} {sizes : List ℕ} {p : List Residual}

namespace Checker

/-- The residuals are polynomials of a degree up to which the scheme is exact, and the blocks move
along straight lines. -/
structure Quadratic (c : Checker σ Exact) (meter : σ → ℕ) (unit : ℕ) (sizes : List ℕ)
    (p : List Residual) : Prop where
  computes : c.evaluator.Computes meter unit sizes p
  degree_le : ∀ q ∈ p, q.totalDegree ≤ c.options.scheme.degree
  workers_ok : ∃ n, Workers.requested c.options.workers = .ok n
  sizes_eq : c.sizes = sizes.map .count
  straight : ∀ space ∈ c.spaces, ∀ m ∈ space.manifold, m.Straight

/-- There are arrays for the residuals, for the blocks, and for the identity matrices that the
manifolds make their derivatives from. -/
structure Room (c : Checker σ Exact) (rows : ℕ) (sizes : List ℕ) : Prop where
  residuals : Shape.Held [rows]
  block : ∀ n ∈ sizes, Shape.Held [n]
  identity : ∀ space ∈ c.spaces, ∀ m ∈ space.manifold, m.room = .ok ()

/-- The error of a number relative to the larger of two, where small ones count as a half. -/
def relativeGap (a n : ℚ) : ℚ := |a - n| / max (max |a| |n|) (1 / 2)

/-- Each Jacobian of a list, along the tangent coordinates of its block, is within a relative error
of the true one. -/
def NearTruth (c : Checker σ Exact) (p : List Residual) (blocks : List (List Exact))
    (jacobians : List (Tensor Exact)) (t : ℚ) : Prop :=
  ∀ k space block jacobian, c.spaces[k]? = some space → blocks[k]? = some block →
    jacobians[k]? = some jacobian → ∀ r < p.length, ∀ j < width space.manifold block.length,
      relativeGap
        (projected block.length space.manifold (fun r i => (jacobian.get [r, i]).value) r j)
        (projected block.length space.manifold (partialAt p blocks k) r j) ≤ t

variable {c : Checker σ Exact} {blocks : List (List Exact)}

/-! ### One block -/

/-- A block of the declared size moves along straight lines. -/
theorem Quadratic.movesStraight (h : c.Quadratic meter unit sizes p) {space : BlockSpace σ Exact}
    (hs : space ∈ c.spaces) {n : ℕ} (hn : space.size = .count n) :
    MovesStraight space.manifold n := by
  intro m hm
  have hstraight := h.straight space hs m hm
  have hambient := space.ambient_eq m hm
  rw [hn, Manifold.ambientSize_eq hstraight, Setting.equals_whole, decide_eq_true_eq] at hambient
  exact ⟨hstraight, Int.ofNat.inj hambient⟩

/-- The blocks that are read are as large as the polynomials expect them. -/
theorem Quadratic.lengths_eq (h : c.Quadratic meter unit sizes p)
    {parameters : List (Supplied Exact)} (hb : readBlocks parameters c.sizes = .ok blocks) :
    blocks.map List.length = sizes := by
  rw [h.sizes_eq] at hb
  exact lengths_of_readBlocks hb

/-- The blocks are read again as they are. -/
theorem Quadratic.readBlocks_eq (h : c.Quadratic meter unit sizes p)
    (hb : blocks.map List.length = sizes) :
    readBlocks (blocks.map .vector) c.evaluator.blockSizes = .ok blocks := by
  rw [h.computes.blockSizes_eq, ← hb]
  exact readBlocks_vector blocks

/-- The numeric Jacobian of a block is the true one. -/
theorem numeric_gives (h : c.Quadratic meter unit sizes p) (hroom : c.Room p.length sizes)
    (hb : blocks.map List.length = sizes) {k : ℕ} {space : BlockSpace σ Exact}
    {block : List Exact} (hs : c.spaces[k]? = some space) (hk : blocks[k]? = some block)
    (recording : Bool) :
    ∃ ambient cost, (c.numeric blocks (valuesAt p blocks) recording k space).Gives meter
      (trueJacobian p blocks k block.length space.manifold, ambient) cost := by
  obtain ⟨hsize, hmem⟩ := size_eq_count h.sizes_eq hb hs hk
  have hm := h.movesStraight (List.mem_of_getElem? hs) hsize
  have halong : ∀ manifold : Option (Manifold σ Exact), MovesStraight manifold block.length →
      ∃ cost, (estimate c.evaluator (blocks.map .vector) (.count k) manifold c.options
        (some (.vector (valuesAt p blocks)))).Gives meter
          (trueJacobian p blocks k block.length manifold) cost := fun _ hm =>
    ⟨_, estimate_gives h.computes h.degree_le h.workers_ok hroom.residuals (h.readBlocks_eq hb) hk
      (hroom.block _ hmem) hm fun residuals hgiven _ => by
        obtain rfl := Option.some.inj hgiven
        rfl⟩
  obtain ⟨cost, htangent⟩ := halong space.manifold hm
  obtain ⟨cost', hambient⟩ := halong none fun m hm => nomatch hm
  unfold numeric
  cases recording with
  | false => exact ⟨[], cost, htangent.bind_pure fun tangent => (tangent, [])⟩
  | true =>
      cases hmanifold : space.manifold with
      | none =>
          rw [hmanifold] at htangent
          exact ⟨_, cost, htangent.bind_pure fun tangent => (tangent, [tangent])⟩
      | some m =>
          -- along its entries the block is differentiated as if it had no manifold
          rw [hmanifold] at htangent
          exact ⟨_, cost + cost', htangent.bind (hambient.bind_pure fun ambient => (_, [ambient]))⟩

/-! ### All blocks -/

/-- The projected Jacobian of a block and the true one. -/
noncomputable def truthOf (p : List Residual) (blocks : List (List Exact))
    (task : ℕ × BlockSpace σ Exact × List Exact × Tensor Exact) : Tensor Exact × Tensor Exact :=
  (localJacobian p.length task.2.2.1.length task.2.1.manifold fun r i =>
      (task.2.2.2.get [r, i]).value,
    trueJacobian p blocks task.1 task.2.2.1.length task.2.1.manifold)

/-- **No block meets a fault**: each is projected, and differentiated without an error. -/
theorem exists_differentiates (h : c.Quadratic meter unit sizes p)
    (hroom : c.Room p.length sizes) (hb : blocks.map List.length = sizes) (recording : Bool)
    (machine : Machine) {todo : List (ℕ × BlockSpace σ Exact × List Exact × Tensor Exact)}
    (htodo : ∀ k space block jacobian, (k, space, block, jacobian) ∈ todo →
      c.spaces[k]? = some space ∧ blocks[k]? = some block ∧
        jacobian.shape = [p.length, block.length]) (w : World σ) :
    ∃ ms w', c.Differentiates machine blocks (valuesAt p blocks) recording todo w ms w' ∧
      ms.map (fun m => (m.tangent, m.numericTangent)) = todo.map (truthOf p blocks) := by
  induction todo generalizing w with
  | nil => exact ⟨[], w, .nil, rfl⟩
  | cons task todo ih =>
      obtain ⟨k, space, block, jacobian⟩ := task
      obtain ⟨hs, hk, hshape⟩ := htodo k space block jacobian List.mem_cons_self
      have hm := h.movesStraight (List.mem_of_getElem? hs) (size_eq_count h.sizes_eq hb hs hk).1
      have hproject : (project (.array jacobian) space.manifold (.vector block)).Gives meter
          (truthOf p blocks (k, space, block, jacobian)).1 0 :=
        project_gives hm (hroom.identity space (List.mem_of_getElem? hs)) hshape
      obtain ⟨ambient, cost, hnumeric⟩ := numeric_gives h hroom hb hs hk recording
      -- the outcomes are certain from every world, so the blocks can be put one after the other
      obtain ⟨w₁, hp, -⟩ := hproject machine w
      obtain ⟨w₂, hn, -⟩ := hnumeric machine w₁
      obtain ⟨ms, w₃, hms, htruth⟩ := ih (fun k space block jacobian hmem =>
        htodo k space block jacobian (List.mem_cons_of_mem _ hmem)) w₂
      refine ⟨⟨_, _, ambient⟩ :: ms, w₃, .cons hp hn hms, ?_⟩
      rw [List.map_cons, List.map_cons, htruth]
      rfl

/-- The evaluator's answer at the point: the values of the polynomials, and a matrix for each
block. -/
theorem Quadratic.of_read (h : c.Quadratic meter unit sizes p)
    (hb : blocks.map List.length = sizes) {machine : Machine} {w w' : World σ}
    {reading : Reading Exact}
    (hread : (c.read blocks).perform machine w = (.ok (some reading), w')) :
    reading.residuals = valuesAt p blocks ∧
      ∀ (k : ℕ) (block : List Exact) (jacobian : Tensor Exact), blocks[k]? = some block →
        reading.jacobians[k]? = some jacobian → jacobian.shape = [p.length, block.length] := by
  obtain ⟨answer, jacobians, hanswer, hresiduals, -, -, hmatrices⟩ := Checker.of_read hread
  constructor
  · have hentries := h.computes.entries_eq blocks hb _ machine w answer w' hanswer
    rw [h.computes.read_eq hentries] at hresiduals
    exact (Except.ok.inj hresiduals).symm
  · intro k block jacobian hk hj
    obtain ⟨hlt, rfl⟩ := List.getElem?_eq_some_iff.1 hj
    obtain ⟨hlk, rfl⟩ := List.getElem?_eq_some_iff.1 hk
    obtain ⟨hl, hone⟩ := Except.mapM_eq_ok_iff_getElem.1 hmatrices
    have hmatrix := hone k (hl ▸ hlt) hlt
    subst hb
    simp only [List.getElem_zipIdx, List.getElem_zip, h.sizes_eq, h.computes.numResiduals_eq,
      List.getElem_map] at hmatrix
    obtain ⟨m, n, hshape, hm, hn⟩ := shape_of_readMatrix hmatrix
    rw [hshape, Int.ofNat.inj hm, Int.ofNat.inj hn]

/-! ### The verdict -/

/-- Jacobians along the tangent coordinates of a block agree if their entries do. -/
theorem within_localJacobian_iff {rows n : ℕ} {manifold : Option (Manifold σ Exact)}
    {a b : ℕ → ℕ → ℚ} {t : ℚ} :
    Within ⟨t⟩ (localJacobian rows n manifold a) (localJacobian rows n manifold b) ↔
      ∀ r < rows, ∀ j < width manifold n,
        relativeGap (projected n manifold a r j) (projected n manifold b r j) ≤ t := by
  have hentry : ∀ r < rows, ∀ j < width manifold n,
      (Scalar.le (relativeError ((localJacobian rows n manifold a).get [r, j])
          ((localJacobian rows n manifold b).get [r, j])) ⟨t⟩ = true ↔
        relativeGap (projected n manifold a r j) (projected n manifold b r j) ≤ t) := by
    intro r hr j hj
    rw [Exact.relativeError_le_iff, get_localJacobian hr hj, get_localJacobian hr hj, relativeGap]
  constructor
  · rintro ⟨rows', cols', hshape, -, hwithin⟩ r hr j hj
    obtain ⟨rfl, rfl⟩ : rows = rows' ∧ width manifold n = cols' := by
      simpa [localJacobian] using hshape
    exact (hentry r hr j hj).1 (hwithin r hr j hj)
  · intro hgap
    exact ⟨rows, width manifold n, rfl, rfl, fun r hr j hj => (hentry r hr j hj).2 (hgap r hr j hj)⟩

/-- Whether the blocks agree is a matter of the evaluator's Jacobians alone. -/
theorem forall_within_iff {jacobians : List (Tensor Exact)} {ms : List (BlockMatrices Exact)}
    (htruth : ms.map (fun m => (m.tangent, m.numericTangent)) =
      (c.tasks blocks jacobians).map (truthOf p blocks)) (t : ℚ) :
    (∀ m ∈ ms, Within ⟨t⟩ m.tangent m.numericTangent) ↔ c.NearTruth p blocks jacobians t := by
  have htasks : (∀ m ∈ ms, Within ⟨t⟩ m.tangent m.numericTangent) ↔
      ∀ task ∈ c.tasks blocks jacobians,
        Within ⟨t⟩ (truthOf p blocks task).1 (truthOf p blocks task).2 := by
    have hpairs := List.forall_mem_map (f := fun m : BlockMatrices Exact =>
      (m.tangent, m.numericTangent)) (l := ms) (P := fun q => Within ⟨t⟩ q.1 q.2)
    rw [htruth, List.forall_mem_map] at hpairs
    exact hpairs.symm
  rw [htasks]
  constructor
  · intro hwithin k space block jacobian hs hk hj
    exact within_localJacobian_iff.1 (hwithin _ (mem_tasks_iff.2 ⟨hs, hk, hj⟩))
  · rintro hnear ⟨k, space, block, jacobian⟩ htask
    obtain ⟨hs, hk, hj⟩ := mem_tasks_iff.1 htask
    exact within_localJacobian_iff.2 (hnear k space block jacobian hs hk hj)

/-! ### Runs -/

omit [Inexact] in
/-- The tangent space of a block that moves along straight lines. -/
theorem tangentSize_eq {space : BlockSpace σ Exact} {n : ℕ} (hn : space.size = .count n)
    (hm : MovesStraight space.manifold n) :
    space.tangentSize = .count (width space.manifold n) := by
  unfold BlockSpace.tangentSize
  cases hmanifold : space.manifold with
  | none => exact hn
  | some m => exact Manifold.tangentSize_eq (hm m hmanifold).1

/-- The record can be cleared. -/
theorem Quadratic.clears (h : c.Quadratic meter unit sizes p) (hroom : c.Room p.length sizes)
    (hmatrix : ∀ n ∈ sizes, Shape.Held [p.length, n]) : c.Clears := by
  have hdeclared : ∀ s ∈ c.sizes, ∃ n ∈ sizes, s = .count n := by
    rw [h.sizes_eq]
    intro s hs
    obtain ⟨n, hn, rfl⟩ := List.mem_map.1 hs
    exact ⟨n, hn, rfl⟩
  rw [Clears, h.computes.numResiduals_eq]
  refine Record.reset_eq_ok Record.blank hroom.residuals (fun s hs => ?_) fun s hs => ?_
  · obtain ⟨n, hn, rfl⟩ := hdeclared s hs
    exact ⟨n, rfl, hmatrix n hn⟩
  · obtain ⟨space, hspace, rfl⟩ := List.mem_map.1 hs
    obtain ⟨n, hn, hsize⟩ := hdeclared space.size (List.mem_map_of_mem hspace)
    have hm := h.movesStraight hspace hsize
    -- a tangent space is no larger than its block
    have hle : List.Forall₂ (· ≤ ·) [p.length, width space.manifold n] [p.length, n] :=
      .cons le_rfl (.cons (width_le hm) .nil)
    exact ⟨_, tangentSize_eq hsize hm, (hmatrix n hn).mono hle⟩

/-- A probe at an accepted point calls the evaluator. -/
theorem Quadratic.run_eq (h : c.Quadratic meter unit sizes p) (hroom : c.Room p.length sizes)
    {parameters : List (Supplied Exact)} (hb : readBlocks parameters c.sizes = .ok blocks) {t : ℚ}
    (ht : 0 ≤ t) {recording : Bool}
    (hmatrix : recording = true → ∀ n ∈ sizes, Shape.Held [p.length, n]) :
    c.run parameters ⟨t⟩ recording = c.runAt blocks ⟨t⟩ recording := by
  exact run_eq_runAt ((Exact.le_iff _ _).2 ht) hb fun hrecording =>
    h.clears hroom (hmatrix hrecording)

/-- **A probe answers, and says yes exactly if the evaluator's Jacobians are near the truth.** -/
theorem run_gives (h : c.Quadratic meter unit sizes p) (hroom : c.Room p.length sizes)
    {parameters : List (Supplied Exact)} (hb : readBlocks parameters c.sizes = .ok blocks)
    {machine : Machine} {w w₁ : World σ} {reading : Reading Exact}
    (hread : (c.read blocks).perform machine w = (.ok (some reading), w₁)) {t : ℚ} (ht : 0 ≤ t)
    {recording : Bool} (hmatrix : recording = true → ∀ n ∈ sizes, Shape.Held [p.length, n]) :
    ∃ ending w' verdict, (c.run parameters ⟨t⟩ recording).perform machine w = (.ok ending, w') ∧
      ending.verdict ⟨t⟩ = .ok verdict ∧
      (verdict = true ↔ c.NearTruth p blocks reading.jacobians t) := by
  have hlengths := h.lengths_eq hb
  obtain ⟨hresiduals, hshapes⟩ := h.of_read hlengths hread
  have htasks : ∀ k space block jacobian,
      (k, space, block, jacobian) ∈ c.tasks blocks reading.jacobians →
        c.spaces[k]? = some space ∧ blocks[k]? = some block ∧
          jacobian.shape = [p.length, block.length] := by
    intro k space block jacobian htask
    obtain ⟨hs, hk, hj⟩ := mem_tasks_iff.1 htask
    exact ⟨hs, hk, hshapes k block jacobian hk hj⟩
  obtain ⟨ms, w₂, hms, htruth⟩ :=
    exists_differentiates h hroom hlengths recording machine htasks w₁
  rw [← hresiduals] at hms
  -- both matrices of a block have as many columns as it has tangent coordinates
  have hshape : ∀ m ∈ ms, ∃ rows cols, m.tangent.shape = [rows, cols] ∧
      m.numericTangent.shape = [rows, cols] := by
    intro m hm
    have hpair : (m.tangent, m.numericTangent) ∈
        (c.tasks blocks reading.jacobians).map (truthOf p blocks) :=
      htruth ▸ List.mem_map_of_mem hm
    obtain ⟨task, -, htask⟩ := List.mem_map.1 hpair
    obtain ⟨hanalytic, hnumeric⟩ := Prod.mk.inj htask
    rw [← hanalytic, ← hnumeric]
    exact ⟨_, _, rfl, rfl⟩
  obtain ⟨comparisons, hc⟩ := exists_compare ⟨t⟩ hshape
  obtain ⟨after, hrun⟩ := runAt_of_differentiates hread hms hc
  rw [h.run_eq hroom hb ht hmatrix]
  refine ⟨_, after, _, hrun, rfl, ?_⟩
  rw [worst_le_iff_within ((Exact.le_iff _ _).2 ht) hms hc, forall_within_iff htruth]

/-- A probe without a record. -/
theorem probe_gives (h : c.Quadratic meter unit sizes p) (hroom : c.Room p.length sizes)
    {parameters : List (Supplied Exact)} (hb : readBlocks parameters c.sizes = .ok blocks)
    {machine : Machine} {w w₁ : World σ} {reading : Reading Exact}
    (hread : (c.read blocks).perform machine w = (.ok (some reading), w₁)) {t : ℚ}
    (ht : 0 ≤ t) :
    ∃ verdict w', (c.probe parameters ⟨t⟩).perform machine w = (.ok verdict, w') ∧
      (verdict = true ↔ c.NearTruth p blocks reading.jacobians t) := by
  have hplain : false = true → ∀ n ∈ sizes, Shape.Held [p.length, n] := nofun
  obtain ⟨ending, w', verdict, hrun, hverdict, hiff⟩ := run_gives h hroom hb hread ht hplain
  refine ⟨verdict, w', Action.perform_bind_eq_ok_iff.2 ⟨ending, w', hrun, ?_⟩, hiff⟩
  rw [hverdict, Action.perform_ofExcept]

/-- A probe that fills in a record. -/
theorem probeInto_gives (h : c.Quadratic meter unit sizes p) (hroom : c.Room p.length sizes)
    {parameters : List (Supplied Exact)} (hb : readBlocks parameters c.sizes = .ok blocks)
    {machine : Machine} {w w₁ : World σ} {reading : Reading Exact}
    (hread : (c.read blocks).perform machine w = (.ok (some reading), w₁)) {t : ℚ}
    (ht : 0 ≤ t) (hmatrix : ∀ n ∈ sizes, Shape.Held [p.length, n]) (before : Record Exact) :
    ∃ verdict record w', (c.probeInto parameters ⟨t⟩ before).perform machine w =
        (.ok (.ok verdict, record), w') ∧
      (verdict = true ↔ c.NearTruth p blocks reading.jacobians t) := by
  obtain ⟨ending, w', verdict, hrun, hverdict, hiff⟩ :=
    run_gives h hroom hb hread ht fun _ => hmatrix
  refine ⟨verdict, ending.record c.cap c.evaluator.numResiduals c.sizes c.tangentSizes before, w',
    Action.perform_bind_eq_ok_iff.2 ⟨ending, w', hrun, ?_⟩, hiff⟩
  rw [hverdict, Action.perform_pure]

/-- The Jacobians are the derivatives of the polynomials. -/
def Correct (p : List Residual) (blocks : List (List Exact)) (jacobians : List (Tensor Exact)) :
    Prop :=
  ∀ (k : ℕ) (block : List Exact) (jacobian : Tensor Exact), blocks[k]? = some block →
    jacobians[k]? = some jacobian → ∀ r < p.length, ∀ i < block.length,
      (jacobian.get [r, i]).value = partialAt p blocks k r i

/-- Jacobians without an error are as near to the truth as can be. -/
theorem nearTruth_of_correct {jacobians : List (Tensor Exact)}
    (h : Correct p blocks jacobians) : c.NearTruth p blocks jacobians 0 := by
  intro k space block jacobian _ hk hj r hr j _
  rw [projected_congr (h k block jacobian hk hj r hr), relativeGap, sub_self, abs_zero, zero_div]

/-- **Estimates and verdicts are exact on quadratic residuals.** The estimate for a block is its
true Jacobian times the derivative of the manifold's step, and under extrapolation every column
stops at the second level. So a probe's verdict is yes exactly if the evaluator's Jacobians are
within the tolerance of the truth, and correct ones pass with no tolerance at all. A record needs
room for its matrices besides. -/
theorem exact_on_quadratics (h : c.Quadratic meter unit sizes p) (hroom : c.Room p.length sizes)
    {parameters : List (Supplied Exact)} (hb : readBlocks parameters c.sizes = .ok blocks) :
    (∀ k block manifold, blocks[k]? = some block → MovesStraight manifold block.length →
      (∀ given : Option (Supplied Exact), (∀ residuals ∈ given, c.options.scheme = .forward →
          residuals.entries = .ok (valuesAt p blocks)) →
        (estimate c.evaluator parameters (.count k) manifold c.options given).Gives meter
          (trueJacobian p blocks k block.length manifold)
          (c.options.evaluations given.isSome (width manifold block.length) * unit)) ∧
      ((∀ m ∈ manifold, m.room = .ok ()) →
        (project (.array (ambientJacobian p blocks k block.length)) manifold
          (.vector block)).Gives meter (trueJacobian p blocks k block.length manifold) 0)) ∧
    (c.options.scheme = .ridders → ∀ site : Site σ Exact, site.Regular meter unit sizes p →
      ∀ i < site.tangentSize, ∀ scale, ∃ s,
        (Ridders.search (fun step => do return .vector (← site.centralDifference i step)) c.options
          c.options.riddersLevels ⟨[], c.options.stepSize scale, none, none⟩).Gives meter s
            (4 * unit) ∧
        s.row.length = 2 ∧ s.answer = .vector (site.trueColumn p i)) ∧
    ∀ machine w reading w₁, (c.read blocks).perform machine w = (.ok (some reading), w₁) →
      (∀ t : ℚ, 0 ≤ t →
        (∃ verdict w', (c.probe parameters ⟨t⟩).perform machine w = (.ok verdict, w') ∧
          (verdict = true ↔ c.NearTruth p blocks reading.jacobians t)) ∧
        ((∀ n ∈ sizes, Shape.Held [p.length, n]) → ∀ before, ∃ verdict record w',
          (c.probeInto parameters ⟨t⟩ before).perform machine w =
            (.ok (.ok verdict, record), w') ∧
          (verdict = true ↔ c.NearTruth p blocks reading.jacobians t))) ∧
      (Correct p blocks reading.jacobians →
        (∃ w', (c.probe parameters ⟨0⟩).perform machine w = (.ok true, w')) ∧
        ((∀ n ∈ sizes, Shape.Held [p.length, n]) → ∀ before, ∃ record w',
          (c.probeInto parameters ⟨0⟩ before).perform machine w =
            (.ok (.ok true, record), w'))) := by
  have hlengths := h.lengths_eq hb
  have hread : readBlocks parameters c.evaluator.blockSizes = .ok blocks := by
    rwa [h.computes.blockSizes_eq, ← h.sizes_eq]
  refine ⟨fun k block manifold hk hm => ⟨fun given hgiven => ?_, fun hspace => ?_⟩, ?_, ?_⟩
  · have hmem : block.length ∈ sizes := by
      rw [← hlengths]
      exact List.mem_map_of_mem (List.mem_of_getElem? hk)
    exact estimate_gives h.computes h.degree_le h.workers_ok hroom.residuals hread hk
      (hroom.block _ hmem) hm hgiven
  · exact project_ambientJacobian_gives hm hspace
  · intro hscheme site hsite i hi scale
    have hdegree := h.degree_le
    rw [hscheme] at hdegree
    exact Site.search_gives hsite hdegree hi c.options scale
  · intro machine w reading w₁ hreading
    refine ⟨fun t ht => ⟨probe_gives h hroom hb hreading ht,
      probeInto_gives h hroom hb hreading ht⟩, fun hcorrect => ⟨?_, fun hmatrix before => ?_⟩⟩
    · obtain ⟨verdict, w', hprobe, hiff⟩ := probe_gives h hroom hb hreading le_rfl
      rw [hiff.2 (nearTruth_of_correct hcorrect)] at hprobe
      exact ⟨w', hprobe⟩
    · obtain ⟨verdict, record, w', hprobe, hiff⟩ :=
        probeInto_gives h hroom hb hreading le_rfl hmatrix before
      rw [hiff.2 (nearTruth_of_correct hcorrect)] at hprobe
      exact ⟨record, w', hprobe⟩

end Checker

/-! ### An evaluator of polynomials -/

/-- The true Jacobians along the entries, one for each block. -/
noncomputable def ambientJacobians (p : List Residual) (blocks : List (List Exact)) :
    List (Tensor Exact) :=
  blocks.zipIdx.map fun q => ambientJacobian p blocks q.2 q.1.length

/-- Evaluates polynomials, counts how often it does, and answers with the true Jacobians. -/
noncomputable def Evaluator.ofResiduals (sizes : List ℕ) (p : List Residual) :
    Evaluator ℕ Exact where
  blockSizes := sizes.map .count
  numResiduals := .count p.length
  evaluate parameters request := do
    Action.modifyShared fun count => ((), count + 1)
    let blocks ← Action.ofExcept (parameters.mapM Supplied.entries)
    return some ⟨.vector (valuesAt p blocks),
      request.map fun _ => (ambientJacobians p blocks).map .array⟩

theorem mapM_entries (blocks : List (List Exact)) :
    (blocks.map Supplied.vector).mapM Supplied.entries = .ok blocks := by
  refine Except.mapM_eq_ok_iff_getElem.2 ⟨by simp, fun k hk hk' => ?_⟩
  rw [List.getElem_map]
  rfl

theorem perform_evaluate_ofResiduals (blocks : List (List Exact)) (request : Option (List Bool))
    (machine : Machine) (w : World ℕ) :
    ((Evaluator.ofResiduals sizes p).evaluate (blocks.map .vector) request).perform machine w =
      (.ok (some ⟨.vector (valuesAt p blocks),
        request.map fun _ => (ambientJacobians p blocks).map .array⟩),
        { w with shared := w.shared + 1 }) := by
  show ((Action.modifyShared _ >>= _ : Action ℕ _)).perform machine w = _
  rw [Action.perform_bind_of_ok (Action.perform_modifyShared machine w _),
    Action.perform_ofExcept_bind (mapM_entries blocks), Action.perform_pure]

theorem ofResiduals_computes : (Evaluator.ofResiduals sizes p).Computes id 1 sizes p where
  blockSizes_eq := rfl
  numResiduals_eq := rfl
  evaluates blocks _ machine w :=
    ⟨_, _, perform_evaluate_ofResiduals blocks none machine w, rfl⟩
  entries_eq blocks _ request machine w answer w' h := by
    rw [perform_evaluate_ofResiduals, Prod.mk.injEq, Except.ok.injEq, Option.some.injEq] at h
    rw [← h.1]
    rfl

theorem correct_ambientJacobians (blocks : List (List Exact)) :
    Checker.Correct p blocks (ambientJacobians p blocks) := by
  intro k block jacobian hk hj r hr i hi
  rw [ambientJacobians, List.getElem?_map, List.getElem?_zipIdx, hk] at hj
  obtain rfl : ambientJacobian p blocks k block.length = jacobian := by simpa using hj
  rw [ambientJacobian, Tensor.get_matrix _ hr hi]

/-- Such an evaluator is read, and it is right. -/
theorem Checker.read_ofResiduals {c : Checker ℕ Exact}
    (he : c.evaluator = Evaluator.ofResiduals sizes p) (hs : c.sizes = sizes.map .count)
    {blocks : List (List Exact)} (hb : blocks.map List.length = sizes) (machine : Machine)
    (w : World ℕ) :
    (c.read blocks).perform machine w =
      (.ok (some ⟨valuesAt p blocks, ambientJacobians p blocks⟩),
        { w with shared := w.shared + 1 }) := by
  have hresiduals : readResiduals (.vector (valuesAt p blocks)) c.evaluator.numResiduals =
      .ok (valuesAt p blocks) := by
    have hcomputes : (Evaluator.ofResiduals sizes p).Computes id 1 sizes p := ofResiduals_computes
    rw [he]
    exact hcomputes.read_eq rfl
  have hlength : ((ambientJacobians p blocks).map Supplied.array).length = blocks.length := by
    simp [ambientJacobians]
  have hjacobians : ((((ambientJacobians p blocks).map Supplied.array).zip c.sizes).zipIdx).mapM
      (fun q => readMatrix q.1.1 c.evaluator.numResiduals q.1.2
        ("Jacobian of block " ++ toString q.2)) = .ok (ambientJacobians p blocks) := by
    subst hb
    refine Except.mapM_eq_ok_iff_getElem.2 ⟨by simp [hs, ambientJacobians], fun k hk hk' => ?_⟩
    simp only [hs, he, ambientJacobians, List.getElem_zipIdx, List.getElem_zip, List.getElem_map]
    exact readMatrix_of_shape rfl _
  unfold read
  rw [he] at *
  rw [Action.perform_bind_of_ok (perform_evaluate_ofResiduals blocks _ machine w)]
  simp only [Option.map_some, hlength, if_true]
  rw [Action.perform_ofExcept_bind hresiduals, Action.perform_ofExcept_bind hjacobians,
    Action.perform_pure]

/-- The residual `x₀ x₁ + y₀` of two blocks `x` and `y`. -/
noncomputable def saddle : Residual := X (0, 0) * X (0, 1) + X (1, 0)

omit [Inexact] in
theorem totalDegree_saddle : saddle.totalDegree ≤ 2 := by
  have hproduct : (X (0, 0) * X (0, 1) : Residual).totalDegree ≤ 2 := by
    refine (totalDegree_mul _ _).trans ?_
    rw [totalDegree_X, totalDegree_X]
  refine (totalDegree_add _ _).trans (max_le hproduct ?_)
  rw [totalDegree_X]
  exact one_le_two

/-- Extrapolation over at most five central differences. -/
def extrapolating : DiffOptions Exact where
  scheme := .ridders
  relativeStep := ⟨1 / 1000000⟩
  minStep := ⟨1 / 1000000⟩
  riddersRelativeStep := ⟨1 / 100⟩
  riddersMinStep := ⟨1 / 100⟩
  riddersLevels := 5
  riddersTolerance := ⟨1 / 1000000⟩
  riddersShrink := ⟨2⟩
  workers := .whole 1
  relativeStep_pos := (Exact.lt_iff _ _).2 (by norm_num)
  minStep_pos := (Exact.lt_iff _ _).2 (by norm_num)
  riddersRelativeStep_pos := (Exact.lt_iff _ _).2 (by norm_num)
  riddersMinStep_pos := (Exact.lt_iff _ _).2 (by norm_num)
  riddersTolerance_pos := (Exact.lt_iff _ _).2 (by norm_num)
  two_le_riddersLevels := by decide
  one_lt_riddersShrink := (Exact.lt_iff _ _).2 (by norm_num)

/-- The checker that holds `x₁` constant. -/
noncomputable def saddleChecker : Checker ℕ Exact where
  evaluator := .ofResiduals [2, 1] [saddle]
  spaces := [firstFree, .plain (.count 1)]
  options := extrapolating
  cap := defaultCap

/-- The point `x = (3, 5)`, `y = 7`. -/
def saddleBlocks : List (List Exact) := [[⟨3⟩, ⟨5⟩], [⟨7⟩]]

/-- A few terms of a series in the place of the operations that rational numbers lack. -/
@[reducible] def rough : Inexact where
  sqrt x := (x + 1) / 2
  sin x := x - x ^ 3 / 6
  cos x := 1 - x ^ 2 / 2
  text x := toString x

theorem saddleChecker_quadratic : saddleChecker.Quadratic id 1 [2, 1] [saddle] where
  computes := ofResiduals_computes
  degree_le q hq := by
    obtain rfl := List.mem_singleton.1 hq
    exact totalDegree_saddle
  workers_ok := ⟨1, rfl⟩
  sizes_eq := rfl
  straight space hs m hm := by
    rcases List.mem_cons.1 hs with rfl | hs
    · obtain rfl := Option.some.inj hm
      exact .subset secondConstant
    · obtain rfl := List.mem_singleton.1 hs
      cases hm

theorem saddleChecker_room : saddleChecker.Room 1 [2, 1] where
  residuals := by decide
  block := by decide
  identity space hs m hm := by
    rcases List.mem_cons.1 hs with rfl | hs
    · obtain rfl := Option.some.inj hm
      rfl
    · obtain rfl := List.mem_singleton.1 hs
      cases hm

omit [Inexact] in
theorem exact_on_quadratics_saddle :
    letI := rough
    (estimate saddleChecker.evaluator (saddleBlocks.map .vector) (.count 0)
        (some (.subset secondConstant)) saddleChecker.options none).Gives id
      (trueJacobian [saddle] saddleBlocks 0 2 (some (.subset secondConstant) :
        Option (Manifold ℕ Exact))) 4 ∧
    ∃ w', (saddleChecker.probe (saddleBlocks.map .vector) ⟨0⟩).perform plainMachine ⟨0, [], []⟩ =
      (.ok true, w') := by
  let := rough
  have hb : readBlocks (saddleBlocks.map .vector) saddleChecker.sizes = .ok saddleBlocks :=
    saddleChecker_quadratic.readBlocks_eq rfl
  have h := Checker.exact_on_quadratics saddleChecker_quadratic saddleChecker_room hb
  have hm : MovesStraight (some (.subset secondConstant) : Option (Manifold ℕ Exact)) 2 := by
    intro m hm
    obtain rfl := Option.some.inj hm
    exact ⟨.subset secondConstant, rfl⟩
  have hread : (saddleChecker.read saddleBlocks).perform plainMachine ⟨0, [], []⟩ =
      (.ok (some ⟨valuesAt [saddle] saddleBlocks, ambientJacobians [saddle] saddleBlocks⟩),
        ⟨1, [], []⟩) := Checker.read_ofResiduals rfl rfl rfl plainMachine ⟨0, [], []⟩
  refine ⟨(h.1 0 [⟨3⟩, ⟨5⟩] _ rfl hm).1 none (fun _ h => nomatch h), ?_⟩
  exact ((h.2.2 plainMachine ⟨0, [], []⟩ _ _ hread).2 (correct_ambientJacobians _)).1

end JacobianAudit
