/-
**Blocks that move along straight lines.**

Without a manifold, on a Euclidean one, with entries held constant and along the columns of a
matrix, a step along a tangent coordinate moves the block along a straight line, as far as the step
is long. The direction of the line is the column of the step's derivative. In exact arithmetic this
holds without an error, so it can be said entry by entry.

Main definitions:

* `JacobianAudit.Manifold.Straight` — the manifolds that move a block along straight lines;
* `JacobianAudit.rate` — how fast an entry moves along a tangent coordinate;
* `JacobianAudit.projected`, `JacobianAudit.localJacobian` — a Jacobian along the tangent
  coordinates.

Main results:

* `JacobianAudit.Site.moved_gives` — **a step moves each entry at its rate**;
* `JacobianAudit.stepJacobian_gives` — the rates are the entries of the step's derivative;
* `JacobianAudit.project_gives` — projecting a Jacobian multiplies it with the rates.
-/

import Mathlib.Algebra.BigOperators.Ring.Finset
import JacobianAudit.Difference.Estimate
import JacobianAudit.Projection
import JacobianAudit.Proofs.Exact
import JacobianAudit.Proofs.Memory
import JacobianAudit.Proofs.Outcomes
import JacobianAudit.Proofs.Reading
import JacobianAudit.Proofs.Steps

set_option autoImplicit false

namespace JacobianAudit

variable {σ : Type}

/-! ### Directions -/

namespace Manifold

/-- The manifolds that move a block along straight lines. -/
inductive Straight : Manifold σ Exact → Prop
  | euclidean (space : Euclidean) : Straight (.euclidean space)
  | subset (space : Subset) : Straight (.subset space)
  | linear (map : LinearMap Exact) : Straight (.linear map)

/-- How many entries the points have. -/
def height : Manifold σ Exact → ℕ
  | euclidean space => space.size
  | subset space => space.size
  | quaternion => 4
  | linear map => map.rows
  | custom _ => 0

/-- How many tangent coordinates there are. -/
def width : Manifold σ Exact → ℕ
  | euclidean space => space.size
  | subset space => space.free.length
  | quaternion => 3
  | linear map => map.cols
  | custom _ => 0

/-- How fast entry `c` moves along tangent coordinate `j`. -/
def rate [Inexact] : Manifold σ Exact → ℕ → ℕ → ℚ
  | euclidean _, c, j => if c = j then 1 else 0
  | subset space, c, j => if space.free[j]? = some c then 1 else 0
  | linear map, c, j => (map.matrix.get [c, j]).value
  | _, _, _ => 0

variable {m : Manifold σ Exact}

theorem ambientSize_eq (h : m.Straight) : m.ambientSize = .count m.height := by
  cases h <;> rfl

theorem tangentSize_eq (h : m.Straight) : m.tangentSize = .count m.width := by
  cases h <;> rfl

theorem width_le (h : m.Straight) : m.width ≤ m.height := by
  cases h with
  | euclidean space => exact le_rfl
  | subset space =>
      have hfilter := List.length_filter_le (fun i => !space.constant.contains i)
        (List.range space.size)
      rwa [List.length_range] at hfilter
  | linear map => exact map.cols_le

end Manifold

/-- How fast entry `c` moves along tangent coordinate `j` of a block, if `j` is one at all. Without
a manifold every entry is a coordinate of its own. -/
def rate [Inexact] (manifold : Option (Manifold σ Exact)) (c j : ℕ) : ℚ :=
  match manifold with
  | none => if c = j then 1 else 0
  | some m => m.rate c j

/-- How many tangent coordinates a block of a size has. -/
def width (manifold : Option (Manifold σ Exact)) (n : ℕ) : ℕ :=
  match manifold with
  | none => n
  | some m => m.width

/-- A block without a manifold, or with one that moves it along straight lines and fits it. -/
def MovesStraight (manifold : Option (Manifold σ Exact)) (n : ℕ) : Prop :=
  ∀ m ∈ manifold, m.Straight ∧ m.height = n

theorem width_le {manifold : Option (Manifold σ Exact)} {n : ℕ} (h : MovesStraight manifold n) :
    width manifold n ≤ n := by
  cases manifold with
  | none => exact le_rfl
  | some m =>
      obtain ⟨hm, rfl⟩ := h m rfl
      exact Manifold.width_le hm

/-! ### Steps -/

/-- A block after a step along a line. -/
def shifted (xs : List Exact) (d : ℕ → ℚ) (step : ℚ) : List Exact :=
  xs.mapIdx fun c x => ⟨x.value + d c * step⟩

@[simp] theorem length_shifted (xs : List Exact) (d : ℕ → ℚ) (step : ℚ) :
    (shifted xs d step).length = xs.length := List.length_mapIdx

theorem eq_shifted {xs ys : List Exact} {d : ℕ → ℚ} {step : ℚ} (hl : ys.length = xs.length)
    (h : ∀ c (hy : c < ys.length) (hx : c < xs.length), ys[c].value = xs[c].value + d c * step) :
    ys = shifted xs d step := by
  refine List.ext_getElem (by simp [hl]) fun c hy hs => ?_
  apply Exact.ext
  rw [h c hy (hl ▸ hy)]
  simp [shifted]

/-- A sum over the tangent coordinates along one of them. -/
theorem sum_direction {n i : ℕ} (hi : i < n) (f g : ℕ → ℚ) (step : ℚ)
    (hg : ∀ j < n, g j = if j = i then step else 0) :
    ∑ j ∈ Finset.range n, f j * g j = f i * step := by
  rw [Finset.sum_eq_single_of_mem i (Finset.mem_range.2 hi)]
  · rw [hg i hi, if_pos rfl]
  · intro j hj hne
    rw [hg j (Finset.mem_range.1 hj), if_neg hne, mul_zero]

variable [Inexact] {meter : σ → ℕ}

/-- The tangent vector along one coordinate. -/
theorem getElem_direction {site : Site σ Exact} {i j : ℕ} {step : Exact}
    (h : j < (site.direction i step).length) :
    ((site.direction i step)[j]).value = if j = i then step.value else 0 := by
  simp only [Site.direction, List.getElem_map, List.getElem_range]
  split
  · rfl
  · rfl

@[simp] theorem length_direction (site : Site σ Exact) (i : ℕ) (step : Exact) :
    (site.direction i step).length = site.tangentSize := by
  simp [Site.direction]

section Plus

variable {xs delta : List Exact} {i : ℕ} {step : ℚ}
  (hd : ∀ j (h : j < delta.length), (delta[j]).value = if j = i then step else 0)

include hd

theorem Euclidean.plus_eq (hl : delta.length = xs.length) :
    ∃ t, Euclidean.plus (.vector xs) (.vector delta) = .ok t ∧
      t.data = shifted xs (fun c => if c = i then 1 else 0) step := by
  refine ⟨_, Euclidean.plus_vector hl, ?_⟩
  refine eq_shifted (by simp [hl]) fun c hy hx => ?_
  simp only [Tensor.data_vector, List.getElem_zipWith, Exact.value_add, hd]
  rw [ite_mul, one_mul, zero_mul]

theorem Subset.plus_eq (space : Subset) (hxs : xs.length = space.size)
    (hl : delta.length = space.free.length) (hi : i < space.free.length) :
    ∃ t, space.plus (.vector xs) (.vector delta) = .ok t ∧
      t.data = shifted xs (fun c => if space.free[i]? = some c then 1 else 0) step := by
  refine ⟨_, Subset.plus_vector hxs hl, ?_⟩
  refine eq_shifted (by simp) fun c hy hx => ?_
  have hs : c < (space.shift xs delta).length := hy
  show ((space.shift xs delta)[c]).value = _
  by_cases hc : c ∈ space.free
  · -- an entry is listed once, so a step along one coordinate moves one entry
    obtain ⟨k, hk, rfl⟩ := List.getElem_of_mem hc
    have hlk : k < delta.length := hl ▸ hk
    have hsame : space.free[i]? = some space.free[k] ↔ k = i := by
      rw [List.getElem?_eq_getElem hi, Option.some.injEq, space.nodup_free.getElem_inj_iff]
      exact eq_comm
    rw [Subset.getElem_shift_free (List.getElem?_eq_getElem hk) hs hx hlk, Exact.value_add, hd]
    simp only [hsame]
    rw [ite_mul, one_mul, zero_mul]
  · have hne : space.free[i]? ≠ some c := fun h => hc (List.mem_of_getElem? h)
    rw [Subset.getElem_shift_constant hc hs hx, if_neg hne, zero_mul, add_zero]

theorem LinearMap.plus_eq (map : LinearMap Exact) (hxs : xs.length = map.rows)
    (hl : delta.length = map.cols) (hi : i < map.cols) :
    ∃ t, map.plus (.vector xs) (.vector delta) = .ok t ∧
      t.data = shifted xs (fun c => (map.matrix.get [c, i]).value) step := by
  refine ⟨_, LinearMap.plus_vector map hxs hl, ?_⟩
  refine eq_shifted (by simp [hxs]) fun c hy hx => ?_
  simp only [Tensor.data_vector, List.getElem_zipWith, List.getElem_map, List.getElem_range,
    Exact.value_add, Exact.value_dot]
  rw [sum_direction hi _ _ step fun j hj => ?_]
  have hlj : j < delta.length := hl ▸ hj
  rw [get_vector hlj]
  exact hd j hlj

end Plus

/-- A step on a manifold that moves blocks along straight lines. -/
theorem Manifold.plus_gives {m : Manifold σ Exact} (hm : m.Straight) {xs delta : List Exact}
    {i : ℕ} {step : ℚ} (hd : ∀ j (h : j < delta.length),
      (delta[j]).value = if j = i then step else 0) (hxs : xs.length = m.height)
    (hl : delta.length = m.width) (hi : i < m.width) :
    ∃ t, (m.plus (.vector xs) (.vector delta)).Gives meter (.array t) 0 ∧
      t.data = shifted xs (fun c => m.rate c i) step := by
  cases hm with
  | euclidean space =>
      obtain ⟨t, ht, hdata⟩ := Euclidean.plus_eq hd (hl.trans hxs.symm)
      exact ⟨t, .ofExcept (congrArg (Except.map Supplied.array) ht), hdata⟩
  | subset space =>
      obtain ⟨t, ht, hdata⟩ := Subset.plus_eq hd space hxs hl hi
      exact ⟨t, .ofExcept (congrArg (Except.map Supplied.array) ht), hdata⟩
  | linear map =>
      obtain ⟨t, ht, hdata⟩ := LinearMap.plus_eq hd map hxs hl hi
      exact ⟨t, .ofExcept (congrArg (Except.map Supplied.array) ht), hdata⟩

/-- **A step moves each entry at its rate.** -/
theorem Site.moved_gives {site : Site σ Exact}
    (hm : MovesStraight site.manifold site.block.length)
    (ht : site.tangentSize = width site.manifold site.block.length) {i : ℕ}
    (hi : i < site.tangentSize) (step : Exact) :
    (site.moved i step).Gives meter
      (shifted site.block (fun c => rate site.manifold c i) step.value) 0 := by
  unfold moved
  cases hsite : site.manifold with
  | none =>
      rw [hsite] at ht
      have hmoved : List.zipWith (· + ·) site.block (site.direction i step) =
          shifted site.block (fun c => rate (none : Option (Manifold σ Exact)) c i) step.value := by
        refine eq_shifted (by simp [ht, width]) fun c hy hx => ?_
        simp only [List.getElem_zipWith, Exact.value_add, getElem_direction, rate]
        rw [ite_mul, one_mul, zero_mul]
      rw [hmoved]
      exact .pure _
  | some m =>
      obtain ⟨hstraight, hheight⟩ := hm m hsite
      rw [hsite] at ht
      have hdirection : ∀ j (h : j < (site.direction i step).length),
          ((site.direction i step)[j]).value = if j = i then step.value else 0 :=
        fun _ h => getElem_direction h
      have hwidth : (site.direction i step).length = m.width := (length_direction _ _ _).trans ht
      have hlt : i < m.width := by
        rw [ht] at hi
        exact hi
      obtain ⟨t, hplus, hdata⟩ : ∃ t, (m.plus (.vector site.block)
          (.vector (site.direction i step))).Gives meter (.array t) 0 ∧
            t.data = shifted site.block (fun c => m.rate c i) step.value :=
        Manifold.plus_gives hstraight hdirection hheight.symm hwidth hlt
      refine hplus.bind_free ?_
      have hentries : (Supplied.array t).entries = .ok (shifted site.block (fun c => m.rate c i)
          step.value) := by rw [← hdata]; rfl
      refine (Action.Gives.ofExcept hentries).bind_free ?_
      rw [if_pos (length_shifted _ _ _)]
      exact .pure _

/-! ### The derivative of the step -/

/-- The rates are the entries of the step's derivative, if there is room for it. -/
theorem stepJacobian_gives {m : Manifold σ Exact} (hm : m.Straight) (hroom : m.room = .ok ())
    (xs : List Exact) :
    ∃ t, (stepJacobian m (.vector xs)).Gives meter t 0 ∧ t.shape = [m.height, m.width] ∧
      ∀ c < m.height, ∀ j < m.width, (t.get [c, j]).value = m.rate c j := by
  have hread : ∀ {t : Tensor Exact}, (m.plusJacobian (.vector xs)).Gives meter (.array t) 0 →
      t.shape = [m.height, m.width] → (stepJacobian m (.vector xs)).Gives meter t 0 := by
    intro t hgives hshape
    refine (Action.Gives.ofExcept rfl).bind_free (hgives.bind_free ?_)
    refine Action.Gives.ofExcept ?_
    rw [Manifold.ambientSize_eq hm, Manifold.tangentSize_eq hm]
    exact readMatrix_of_shape hshape _
  cases hm with
  | euclidean space =>
      refine ⟨.identity space.size, hread ?_ rfl, rfl, fun c hc j hj => ?_⟩
      · rw [Manifold.plusJacobian_euclidean, hroom]
        exact .pure _
      · have hc' : c < space.size := hc
        have hj' : j < space.size := hj
        rw [Tensor.identity, Tensor.get_matrix _ hc' hj', Manifold.rate]
        split
        · rfl
        · rfl
  | subset space =>
      have hshape : (space.freeColumns : Tensor Exact).shape =
          [space.size, space.free.length] := by
        simp [Subset.freeColumns]
      have hgives : ((.subset space : Manifold σ Exact).plusJacobian (.vector xs)).Gives meter
          (.array space.freeColumns) 0 := by
        rw [Manifold.plusJacobian_subset, hroom]
        exact .pure _
      refine ⟨space.freeColumns, hread hgives hshape, hshape, fun c hc j hj => ?_⟩
      have hj' : j < space.free.toArray.size := hj
      have hentry := Tensor.get_matrix (fun i k : ℕ => if space.free.toArray[k]? = some i then
        (Scalar.one : Exact) else Scalar.zero) hc hj'
      refine (congrArg Exact.value hentry).trans ?_
      rw [Manifold.rate, List.getElem?_toArray]
      split
      · rfl
      · rfl
  | linear map =>
      exact ⟨map.matrix, hread (.pure _) map.shape_eq, map.shape_eq, fun c _ j _ => rfl⟩

/-! ### Jacobians along the tangent coordinates -/

/-- The derivative of residual `r` along tangent coordinate `j`, by the chain rule. The Jacobian is
given by its entries. -/
def projected (n : ℕ) (manifold : Option (Manifold σ Exact)) (jacobian : ℕ → ℕ → ℚ) (r j : ℕ) :
    ℚ :=
  ∑ c ∈ Finset.range n, jacobian r c * rate manifold c j

/-- A Jacobian along the tangent coordinates of a block. -/
def localJacobian (rows n : ℕ) (manifold : Option (Manifold σ Exact)) (jacobian : ℕ → ℕ → ℚ) :
    Tensor Exact :=
  .matrix rows (width manifold n) fun r j => ⟨projected n manifold jacobian r j⟩

theorem get_localJacobian {rows n r j : ℕ} {manifold : Option (Manifold σ Exact)}
    {jacobian : ℕ → ℕ → ℚ} (hr : r < rows) (hj : j < width manifold n) :
    ((localJacobian rows n manifold jacobian).get [r, j]).value =
      projected n manifold jacobian r j := by
  rw [localJacobian, Tensor.get_matrix _ hr hj]

/-- Only the entries of the Jacobian count. -/
theorem projected_congr {n r : ℕ} {a b : ℕ → ℕ → ℚ} (h : ∀ c < n, a r c = b r c)
    (manifold : Option (Manifold σ Exact)) (j : ℕ) :
    projected n manifold a r j = projected n manifold b r j := by
  refine Finset.sum_congr rfl fun c hc => ?_
  rw [h c (Finset.mem_range.1 hc)]

theorem localJacobian_congr {rows n : ℕ} {a b : ℕ → ℕ → ℚ}
    (h : ∀ r < rows, ∀ c < n, a r c = b r c) (manifold : Option (Manifold σ Exact)) :
    localJacobian rows n manifold a = localJacobian rows n manifold b := by
  refine Tensor.ext_get rfl rfl fun r hr j hj => Exact.ext ?_
  rw [get_localJacobian hr hj, get_localJacobian hr hj, projected_congr (h r hr)]

/-- Without a manifold there is nothing to project. -/
theorem projected_none {n r j : ℕ} {jacobian : ℕ → ℕ → ℚ} (hj : j < n) :
    projected n (none : Option (Manifold σ Exact)) jacobian r j = jacobian r j := by
  simp [projected, rate, hj]

/-- **Projecting a Jacobian multiplies it with the rates.** -/
theorem project_gives {manifold : Option (Manifold σ Exact)} {xs : List Exact}
    (hm : MovesStraight manifold xs.length)
    (hroom : ∀ m ∈ manifold, m.room = .ok ())
    {rows : ℕ} {jacobian : Tensor Exact} (hj : jacobian.shape = [rows, xs.length]) :
    (project (.array jacobian) manifold (.vector xs)).Gives meter
      (localJacobian rows xs.length manifold fun r c => (jacobian.get [r, c]).value) 0 := by
  refine (Action.Gives.ofExcept rfl).bind_free ?_
  simp only [hj]
  cases manifold with
  | none =>
      have hsame : jacobian = localJacobian rows xs.length (none : Option (Manifold σ Exact))
          fun r c => (jacobian.get [r, c]).value := by
        refine Tensor.ext_get hj rfl fun r hr j hj => ?_
        apply Exact.ext
        rw [get_localJacobian hr hj, projected_none hj]
      rw [← hsame]
      exact .pure _
  | some m =>
      obtain ⟨hstraight, hheight⟩ := hm m rfl
      obtain ⟨t, ht, hshape, hrate⟩ : ∃ t, (stepJacobian m (.vector xs)).Gives meter t 0 ∧
          t.shape = [m.height, m.width] ∧
            ∀ c < m.height, ∀ j < m.width, (t.get [c, j]).value = m.rate c j :=
        stepJacobian_gives hstraight (hroom m rfl) xs
      have hsize : m.ambientSize.equals (.count xs.length) = true := by
        rw [Manifold.ambientSize_eq hstraight, Setting.equals_whole, hheight, decide_eq_true rfl]
      simp only [hsize, if_true]
      have hcolumns : t.columns = m.width := by rw [Tensor.columns, hshape]; rfl
      -- both are matrices of sums of products, with the step's derivative read as the rates
      have hproduct : jacobian.matmul rows xs.length t.columns t = localJacobian rows xs.length
          (some m) fun r c => (jacobian.get [r, c]).value := by
        rw [Tensor.matmul_eq, hcolumns]
        refine Tensor.ext_get rfl rfl fun r hr j hj => ?_
        apply Exact.ext
        rw [get_localJacobian hr hj, Tensor.get_matrix _ hr hj, Exact.value_dot]
        refine Finset.sum_congr rfl fun c hc => ?_
        rw [hrate c (hheight ▸ Finset.mem_range.1 hc) j hj]
        rfl
      rw [← hproduct]
      exact ht.bind_free (.pure _)

end JacobianAudit
