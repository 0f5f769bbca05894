/-
**Steps and their derivatives.**

A manifold is written down twice, as a step and as the derivative of the step at zero. In exact
arithmetic the two agree: no step leads to where one is, a flat step is its derivative applied to
the tangent vector, and the central difference of quaternion steps is the derivative up to a factor
that depends on the length of the step alone. Nothing is assumed of the sine and the cosine.

Main definitions:

* `JacobianAudit.FieldReading.Rooted` — opposite numbers and roots of squares are read as such;
* `JacobianAudit.Manifold.Consistent` — the step from a point agrees with a matrix as its
  derivative;
* `JacobianAudit.Evaluator.AffineIn` — the residuals are affine in one block.

Main results:

* `JacobianAudit.Manifold.exists_consistent` — the library's manifolds are consistent;
* `JacobianAudit.Manifold.plus_agrees` — **the steps agree with their derivatives**, and so do
  central differences along quaternions with projected Jacobians.
-/

import Mathlib.Algebra.BigOperators.Field
import Mathlib.Data.Rat.Sqrt
import Mathlib.Tactic.FieldSimp
import Mathlib.Tactic.IntervalCases
import Mathlib.Tactic.Ring
import JacobianAudit.Proofs.Exactness
import JacobianAudit.Proofs.Fields

set_option autoImplicit false

namespace JacobianAudit

/-! ### What is read from vectors -/

namespace FieldReading

variable {α K : Type} [Scalar α] [Field K] (v : FieldReading α K)

/-- Opposite numbers are read as such, and so are the roots of squares. -/
structure Rooted [LinearOrder K] : Prop extends v.Ordered where
  value_neg (x : α) : v.value (-x) = -v.value x
  value_sqrt (x : α) (y : K) : v.value x = y * y → v.value (Scalar.sqrt x) = |y|

/-- What an entry of a vector is read as. -/
def entry (xs : List α) (c : ℕ) : K := v.value (xs.getD c Scalar.zero)

include v in
/-- Zeros are added without effect. -/
theorem add_zero_eq (x : α) : x + Scalar.zero = x := by
  apply v.injective
  rw [v.value_add, v.value_zero, add_zero]

variable {v}

theorem entry_of_lt {xs : List α} {c : ℕ} (h : c < xs.length) : v.entry xs c = v.value xs[c] := by
  simp [entry, List.getElem?_eq_getElem h]

theorem entry_vector {xs : List α} {c : ℕ} (h : c < xs.length) :
    v.value ((Tensor.vector xs).get [c]) = v.entry xs c := by
  rw [get_vector h, entry_of_lt h]

theorem entry_zipWith {f : α → α → α} {xs ys : List α} {c : ℕ} (hx : c < xs.length)
    (hy : c < ys.length) : v.entry (List.zipWith f xs ys) c = v.value (f xs[c] ys[c]) := by
  have hc : c < (List.zipWith f xs ys).length := by simp [hx, hy]
  rw [entry_of_lt hc, List.getElem_zipWith]

/-- A sum of products of which one counts. -/
theorem sum_one_of {n k : ℕ} (hk : k < n) {f g : ℕ → K} (hone : f k = 1)
    (hzero : ∀ j < n, j ≠ k → f j = 0) : ∑ j ∈ Finset.range n, f j * g j = g k := by
  rw [Finset.sum_eq_single_of_mem k (Finset.mem_range.2 hk), hone, one_mul]
  intro j hj hne
  rw [hzero j (Finset.mem_range.1 hj) hne, zero_mul]

variable [LinearOrder K]

theorem Ordered.eq_zero_iff (hv : v.Ordered) (x : α) :
    Scalar.eq x Scalar.zero = true ↔ v.value x = 0 := by
  rw [Scalar.eq, Bool.and_eq_true, hv.le_iff, hv.le_iff, v.value_zero]
  exact le_antisymm_iff.symm

end FieldReading

variable {σ α K : Type} [Scalar α] [Field K] {v : FieldReading α K}

/-! ### Flat steps -/

section Flat

variable {xs delta : List α} {c : ℕ}

theorem Euclidean.entry_plus (hl : delta.length = xs.length) (hc : c < xs.length) :
    v.entry (List.zipWith (· + ·) xs delta) c = v.entry xs c +
      ∑ j ∈ Finset.range xs.length,
        v.value ((Tensor.identity xs.length).get [c, j]) * v.entry delta j := by
  have hidentity : ∀ j < xs.length,
      v.value ((Tensor.identity xs.length : Tensor α).get [c, j]) = if c = j then 1 else 0 := by
    intro j hj
    rw [Tensor.identity, Tensor.get_matrix _ hc hj]
    split
    · exact v.value_one
    · exact v.value_zero
  have hd : c < delta.length := hl ▸ hc
  rw [FieldReading.sum_one_of hc (by rw [hidentity c hc, if_pos rfl])
    fun j hj hne => by rw [hidentity j hj, if_neg hne.symm]]
  rw [FieldReading.entry_zipWith hc hd, v.value_add, FieldReading.entry_of_lt hc,
    FieldReading.entry_of_lt hd]

theorem Subset.entry_plus {space : Subset} (hxs : xs.length = space.size)
    (hl : delta.length = space.free.length) (hc : c < xs.length) :
    v.entry (space.shift xs delta) c = v.entry xs c +
      ∑ j ∈ Finset.range space.free.length,
        v.value ((space.freeColumns : Tensor α).get [c, j]) * v.entry delta j := by
  have hmatrix : ∀ j < space.free.length, v.value ((space.freeColumns : Tensor α).get [c, j]) =
      if space.free[j]? = some c then 1 else 0 := by
    intro j hj
    rw [Subset.get_freeColumns (hxs ▸ hc) hj]
    split
    · exact v.value_one
    · exact v.value_zero
  have hs : c < (space.shift xs delta).length := by simpa using hc
  rw [FieldReading.entry_of_lt hs, FieldReading.entry_of_lt hc]
  by_cases hmem : c ∈ space.free
  · -- the entry is listed once, so one column counts
    obtain ⟨k, hk, rfl⟩ := List.getElem_of_mem hmem
    have hd : k < delta.length := hl ▸ hk
    rw [Subset.getElem_shift_free (List.getElem?_eq_getElem hk) hs hc hd, v.value_add,
      FieldReading.sum_one_of hk (by rw [hmatrix k hk, if_pos (List.getElem?_eq_getElem hk)]),
      FieldReading.entry_of_lt hd]
    intro j hj hne
    rw [hmatrix j hj, if_neg]
    rw [List.getElem?_eq_getElem hj, Option.some.injEq, space.nodup_free.getElem_inj_iff]
    exact hne
  · rw [Subset.getElem_shift_constant hmem hs hc, Finset.sum_eq_zero, add_zero]
    intro j hj
    rw [hmatrix j (Finset.mem_range.1 hj), if_neg fun h => hmem (List.mem_of_getElem? h), zero_mul]

theorem LinearMap.entry_plus {map : LinearMap α} (hxs : xs.length = map.rows)
    (hl : delta.length = map.cols) (hc : c < xs.length) :
    v.entry (List.zipWith (· + ·) xs ((List.range map.rows).map fun c =>
        Tensor.dot map.cols (fun k => map.matrix.get [c, k])
          fun k => (Tensor.vector delta).get [k])) c = v.entry xs c +
      ∑ j ∈ Finset.range map.cols, v.value (map.matrix.get [c, j]) * v.entry delta j := by
  rw [FieldReading.entry_zipWith hc (by simpa [← hxs] using hc), v.value_add,
    FieldReading.entry_of_lt hc, List.getElem_map, List.getElem_range, FieldReading.value_dot]
  refine congrArg _ (Finset.sum_congr rfl fun j hj => ?_)
  rw [FieldReading.entry_vector (hl ▸ Finset.mem_range.1 hj)]

end Flat

/-! ### Steps of quaternions -/

namespace Quaternion

/-- **A step of a quaternion** is the cosine of its length times the point, and the sine over the
length times the derivative applied to the tangent vector. -/
theorem entry_mul_exponential {xs delta : List α} (hxs : xs.length = 4) (hl : delta.length = 3)
    {J : Tensor α} (hJ : ∀ c < 4, ∀ i < 3, J.get [c, i] =
      (((ofList xs).rows[c]?.bind fun row => row[i]?)).getD Scalar.nan)
    (hneg : ∀ x : α, v.value (-x) = -v.value x) (n : α) {c : ℕ} (hc : c < 4) :
    v.entry (mul (ofList (exponential n delta)) (ofList xs)).toList c =
      v.value (Scalar.cos n) * v.entry xs c + v.value (Scalar.sin n) / v.value n *
        ∑ j ∈ Finset.range 3, v.value (J.get [c, j]) * v.entry delta j := by
  obtain ⟨w, x, y, z, rfl⟩ := eq_of_length hxs
  obtain ⟨a, b, d, rfl⟩ : ∃ a b d, delta = [a, b, d] := by
    match delta, hl with
    | [a, b, d], _ => exact ⟨a, b, d, rfl⟩
  simp only [Finset.sum_range_succ, Finset.sum_range_zero, hJ c hc 0 (by decide),
    hJ c hc 1 (by decide), hJ c hc 2 (by decide)]
  -- one case per row of the table
  interval_cases c <;>
    simp [FieldReading.entry, exponential, ofList, mul, toList, rows, v.value_add, v.value_sub,
      v.value_mul, v.value_div, hneg] <;>
    ring

variable [LinearOrder K]

/-- A tangent vector along one coordinate is as long as its entry. -/
theorem norm_along (hv : v.Rooted) {i : ℕ} (hi : i < 3) (h : α) :
    norm (tangentAlong 3 i h) = Scalar.abs h := by
  apply v.injective
  rw [hv.value_abs]
  refine hv.value_sqrt _ _ ?_
  rw [FieldReading.value_sum]
  interval_cases i <;>
    simp [tangentAlong, List.range_succ, v.value_mul, v.value_zero]

/-- The step along a coordinate. -/
theorem plus_along [IsStrictOrderedRing K] (hv : v.Rooted) {xs : List α} (hxs : xs.length = 4)
    {J : Tensor α} (hJ : ∀ c < 4, ∀ i < 3, J.get [c, i] =
      (((ofList xs).rows[c]?.bind fun row => row[i]?)).getD Scalar.nan)
    {i : ℕ} (hi : i < 3) {h : α} (hh : v.value h ≠ 0) :
    ∃ moved : List α, moved.length = 4 ∧
      Quaternion.plus (.vector xs) (.vector (tangentAlong 3 i h)) = .ok (.vector moved) ∧
      ∀ c < 4, v.entry moved c = v.value (Scalar.cos (Scalar.abs h)) * v.entry xs c +
        v.value (Scalar.sin (Scalar.abs h)) / |v.value h| *
          (v.value (J.get [c, i]) * v.value h) := by
  have hnorm := norm_along hv hi h
  have hzero : Scalar.eq (norm (tangentAlong 3 i h)) Scalar.zero = false := by
    rw [hnorm, ← Bool.not_eq_true, hv.eq_zero_iff, hv.value_abs, abs_eq_zero]
    exact hh
  refine ⟨_, rfl, plus_vector hxs (length_tangentAlong 3 i h) hzero, fun c hc => ?_⟩
  rw [entry_mul_exponential hxs (length_tangentAlong 3 i h) hJ hv.value_neg _ hc, hnorm,
    hv.value_abs]
  rw [Finset.sum_eq_single_of_mem i (Finset.mem_range.2 hi)]
  · simp [FieldReading.entry, tangentAlong, hi]
  · intro j hj hne
    simp [FieldReading.entry, tangentAlong, Finset.mem_range.1 hj, hne, v.value_zero]

end Quaternion

/-! ### Consistent manifolds -/

namespace Manifold

/-- The step from a point agrees with a matrix as its derivative: it is the matrix that the manifold
answers with, unless there is no array so large; no step leads to where one is; a flat step is the
matrix applied to the tangent vector; and central differences along a quaternion are the columns of
the matrix, times the sine of the step over the step. -/
structure Consistent [LinearOrder K] (v : FieldReading α K) (m : Manifold σ α) (xs : List α)
    (n : ℕ) (J : Tensor α) : Prop where
  shape_eq : J.shape = [xs.length, n]
  plusJacobian_eq : m.room = .ok () → m.plusJacobian (.vector xs) = pure (.array J)
  plus_zero : m.plus (.vector xs) (.vector (List.replicate n Scalar.zero)) = pure (.vector xs)
  plus_flat : m ≠ .quaternion → ∀ delta : List α, delta.length = n → ∃ moved : List α,
    moved.length = xs.length ∧ m.plus (.vector xs) (.vector delta) = pure (.vector moved) ∧
    ∀ c < xs.length, v.entry moved c =
      v.entry xs c + ∑ j ∈ Finset.range n, v.value (J.get [c, j]) * v.entry delta j
  plus_quaternion : m = .quaternion → ∀ i < n, ∀ h : α, v.value h ≠ 0 →
    ∃ ahead behind : List α, ahead.length = xs.length ∧ behind.length = xs.length ∧
      m.plus (.vector xs) (.vector (tangentAlong n i h)) = pure (.vector ahead) ∧
      m.plus (.vector xs) (.vector (tangentAlong n i (-h))) = pure (.vector behind) ∧
      ∀ c < xs.length, (v.entry ahead c - v.entry behind c) / (2 * v.value h) =
        v.value (Scalar.sin (Scalar.abs h)) / |v.value h| * v.value (J.get [c, i])

variable [LinearOrder K] {xs : List α} {n : ℕ}

theorem consistent_euclidean (v : FieldReading α K) (space : Euclidean)
    (hx : xs.length = space.size) :
    (Manifold.euclidean space : Manifold σ α).Consistent v xs space.size
      (.identity space.size) := by
  have hplus : ∀ delta : List α, delta.length = space.size →
      (Manifold.euclidean space : Manifold σ α).plus (.vector xs) (.vector delta) =
        pure (.vector (List.zipWith (· + ·) xs delta)) := by
    intro delta hl
    unfold Manifold.plus
    simp only [Euclidean.plus_vector (hl.trans hx.symm)]
    rfl
  refine ⟨by rw [hx]; rfl, fun hroom => ?_, ?_, fun _ delta hl => ?_, nofun⟩
  · rw [plusJacobian_euclidean, hroom]
    rfl
  · rw [hplus _ List.length_replicate]
    refine congrArg (fun ys => pure (Supplied.vector ys)) ?_
    refine List.ext_getElem (by simp [hx]) fun c _ _ => ?_
    rw [List.getElem_zipWith, List.getElem_replicate, v.add_zero_eq]
  · refine ⟨_, by simp [hl, hx], hplus delta hl, fun c hc => ?_⟩
    rw [← hx]
    exact Euclidean.entry_plus (hl.trans hx.symm) hc

theorem consistent_subset (v : FieldReading α K) (space : Subset)
    (hx : xs.length = space.size) :
    (Manifold.subset space : Manifold σ α).Consistent v xs space.free.length
      space.freeColumns := by
  have hplus : ∀ delta : List α, delta.length = space.free.length →
      (Manifold.subset space : Manifold σ α).plus (.vector xs) (.vector delta) =
        pure (.vector (space.shift xs delta)) := by
    intro delta hl
    unfold Manifold.plus
    simp only [Subset.plus_vector hx hl]
    rfl
  refine ⟨by simp [Subset.freeColumns, hx], fun hroom => ?_, ?_, fun _ delta hl => ?_, nofun⟩
  · rw [plusJacobian_subset, hroom]
    rfl
  · rw [hplus _ List.length_replicate]
    refine congrArg (fun ys => pure (Supplied.vector ys)) ?_
    refine List.ext_getElem (by simp) fun c hs hc => ?_
    by_cases hmem : c ∈ space.free
    · obtain ⟨k, hk, rfl⟩ := List.getElem_of_mem hmem
      rw [Subset.getElem_shift_free (List.getElem?_eq_getElem hk) hs hc (by simpa using hk),
        List.getElem_replicate, v.add_zero_eq]
    · exact Subset.getElem_shift_constant hmem hs hc
  · exact ⟨_, by simp, hplus delta hl, fun c hc => Subset.entry_plus hx hl hc⟩

theorem consistent_linear (v : FieldReading α K) (map : LinearMap α)
    (hx : xs.length = map.rows) :
    (Manifold.linear map : Manifold σ α).Consistent v xs map.cols map.matrix := by
  have hplus : ∀ delta : List α, delta.length = map.cols → ∃ moved : List α,
      moved.length = xs.length ∧ (Manifold.linear map : Manifold σ α).plus (.vector xs)
        (.vector delta) = pure (.vector moved) ∧
      ∀ c < xs.length, v.entry moved c = v.entry xs c +
        ∑ j ∈ Finset.range map.cols, v.value (map.matrix.get [c, j]) * v.entry delta j := by
    intro delta hl
    refine ⟨_, by simp [hx], ?_, fun c hc => LinearMap.entry_plus hx hl hc⟩
    unfold Manifold.plus
    simp only [LinearMap.plus_vector map hx hl]
    rfl
  refine ⟨by rw [hx]; exact map.shape_eq, fun _ => rfl, ?_, fun _ => hplus, nofun⟩
  obtain ⟨moved, hl, hmoved, hentry⟩ := hplus (List.replicate map.cols Scalar.zero)
    List.length_replicate
  rw [hmoved]
  refine congrArg (fun ys => pure (Supplied.vector ys)) ?_
  refine List.ext_getElem hl fun c hc hx => v.injective ?_
  -- the matrix is applied to zeros
  have hsame := hentry c hx
  rw [FieldReading.entry_of_lt hc, FieldReading.entry_of_lt hx, Finset.sum_eq_zero, add_zero]
    at hsame
  · exact hsame
  · intro j hj
    simp [FieldReading.entry, Finset.mem_range.1 hj, v.value_zero]

variable [IsStrictOrderedRing K]

theorem exists_consistent_quaternion (hv : v.Rooted) (hx : xs.length = 4) :
    ∃ J, (Manifold.quaternion : Manifold σ α).Consistent v xs 3 J := by
  obtain ⟨J, hJ, hshape, hentry⟩ := Quaternion.plusJacobian_vector hx
  refine ⟨J, by rw [hx]; exact hshape, fun _ => ?_, ?_, fun h => absurd rfl h, ?_⟩
  · unfold Manifold.plusJacobian
    simp only [hJ]
    rfl
  · have hnorm : Scalar.eq (Quaternion.norm (List.replicate 3 (Scalar.zero : α)))
        Scalar.zero = true := by
      rw [hv.eq_zero_iff]
      have hroot := hv.value_sqrt (Scalar.sum ((List.replicate 3 Scalar.zero).map
        fun x : α => x * x)) 0 (by simp [FieldReading.value_sum, v.value_mul, v.value_zero])
      rw [Quaternion.norm, hroot, abs_zero]
    unfold Manifold.plus
    simp only [Quaternion.plus_of_norm_zero hnorm]
    rfl
  · intro _ i hi h hh
    have hneg : v.value (-h) ≠ 0 := by rwa [hv.value_neg, neg_ne_zero]
    obtain ⟨ahead, hl, hplus, hahead⟩ := Quaternion.plus_along hv hx hentry hi hh
    obtain ⟨behind, hl', hplus', hbehind⟩ := Quaternion.plus_along hv hx hentry hi hneg
    have habs : Scalar.abs (-h) = Scalar.abs h := by
      apply v.injective
      rw [hv.value_abs, hv.value_abs, hv.value_neg, abs_neg]
    refine ⟨ahead, behind, hl.trans hx.symm, hl'.trans hx.symm, ?_, ?_, fun c hc => ?_⟩
    · unfold Manifold.plus
      simp only [hplus]
      rfl
    · unfold Manifold.plus
      simp only [hplus']
      rfl
    · -- the cosines cancel
      rw [hahead c (hx ▸ hc), hbehind c (hx ▸ hc), habs, hv.value_neg, abs_neg]
      field_simp
      ring

/-- **The library's manifolds are consistent**: what is written down as the derivative of the step
is its derivative. -/
theorem exists_consistent (hv : v.Rooted) (m : Manifold σ α) (hm : ∀ custom, m ≠ .custom custom)
    (hx : m.ambientSize = .count xs.length) (hn : m.tangentSize = .count n) :
    ∃ J, m.Consistent v xs n J := by
  cases m with
  | euclidean space =>
      obtain rfl : space.size = n := Int.ofNat.inj (Setting.whole.inj hn)
      exact ⟨_, consistent_euclidean v space (Int.ofNat.inj (Setting.whole.inj hx)).symm⟩
  | subset space =>
      obtain rfl : space.free.length = n := Int.ofNat.inj (Setting.whole.inj hn)
      exact ⟨_, consistent_subset v space (Int.ofNat.inj (Setting.whole.inj hx)).symm⟩
  | quaternion =>
      obtain rfl : 3 = n := Int.ofNat.inj (Setting.whole.inj hn)
      exact exists_consistent_quaternion hv (Int.ofNat.inj (Setting.whole.inj hx)).symm
  | linear map =>
      obtain rfl : map.cols = n := Int.ofNat.inj (Setting.whole.inj hn)
      exact ⟨_, consistent_linear v map (Int.ofNat.inj (Setting.whole.inj hx)).symm⟩
  | custom manifold => exact absurd rfl (hm manifold)

end Manifold

/-! ### Differences along quaternions -/

/-- Whatever a block is moved to, the evaluator answers with residuals that are affine in the
entries of the block. The matrix is their Jacobian with respect to the block. -/
structure Evaluator.AffineIn (e : Evaluator σ α) (v : FieldReading α K) (blocks : List (List α))
    (k n rows : ℕ) (jacobian : Tensor α) (offset : ℕ → K) : Prop where
  numResiduals_eq : e.numResiduals = .count rows
  shape_eq : jacobian.shape = [rows, n]
  evaluates : ∀ moved : List α, moved.length = n → ∃ residuals : List α,
    residuals.length = rows ∧
    (∀ r < rows, v.entry residuals r = offset r +
      ∑ c ∈ Finset.range n, v.value (jacobian.get [r, c]) * v.entry moved c) ∧
    ∀ machine w, ∃ answer w', (e.evaluate ((blocks.set k moved).map .vector) none).perform machine
      w = (.ok (some answer), w') ∧ answer.residuals.entries = .ok residuals

section Central

variable {e : Evaluator σ α} {blocks : List (List α)} {k n rows : ℕ}
  {jacobian J : Tensor α} {offset : ℕ → K} {xs : List α} {m : Manifold σ α}

/-- The residuals after a step. -/
theorem Evaluator.AffineIn.residuals_gives
    (he : e.AffineIn v blocks k xs.length rows jacobian offset) (shown : String) {i : ℕ} {step : α}
    {moved : List α} (hl : moved.length = xs.length)
    (hplus : m.plus (.vector xs) (.vector (tangentAlong n i step)) = pure (.vector moved)) :
    ∃ residuals : List α, residuals.length = rows ∧
      ((⟨e, blocks, k, shown, xs, some m, n⟩ : Site σ α).residuals i step).Gives (fun _ => 0)
        residuals 0 ∧
      ∀ r < rows, v.entry residuals r = offset r +
        ∑ c ∈ Finset.range xs.length, v.value (jacobian.get [r, c]) * v.entry moved c := by
  obtain ⟨residuals, hlr, hentry, hanswer⟩ := he.evaluates moved hl
  refine ⟨residuals, hlr, fun machine w => ?_, hentry⟩
  obtain ⟨answer, w', hevaluate, hresiduals⟩ := hanswer machine w
  have hmoved : (⟨e, blocks, k, shown, xs, some m, n⟩ : Site σ α).moved i step = pure moved := by
    unfold Site.moved
    show m.plus (.vector xs) (.vector (tangentAlong n i step)) >>= _ = _
    rw [hplus, pure_bind]
    show Action.ofExcept (.ok moved) >>= _ = _
    rw [show (Action.ofExcept (.ok moved) : Action σ (List α)) = pure moved from rfl, pure_bind]
    simp [hl]
  have hread : readResiduals answer.residuals e.numResiduals = .ok residuals := by
    rw [he.numResiduals_eq, ← hlr]
    exact readResiduals_of_entries hresiduals
  refine ⟨w', ?_, rfl⟩
  unfold Site.residuals
  rw [hmoved, pure_bind, Action.perform_bind_of_ok hevaluate]
  simp only [hread, Action.perform_ofExcept]

/-- A Jacobian is projected by multiplying it with the derivative of the step. -/
theorem project_of_plusJacobian (hx : m.ambientSize = .count xs.length)
    (hn : m.tangentSize = .count n) (hJ : m.plusJacobian (.vector xs) = pure (.array J))
    (hshape : J.shape = [xs.length, n]) (hjacobian : jacobian.shape = [rows, xs.length]) :
    project (.array jacobian) (some m) (.vector xs) =
      pure (.matrix rows n fun r i => Tensor.dot xs.length (fun c => jacobian.get [r, c])
        fun c => J.get [c, i]) := by
  have hstep : stepJacobian m (.vector xs) = pure J := by
    unfold stepJacobian
    show m.plusJacobian (.vector xs) >>= _ = _
    rw [hJ, pure_bind, hx, hn]
    exact congrArg Action.ofExcept (readMatrix_of_shape hshape _)
  have hsize : m.ambientSize.equals (.count xs.length) = true := by
    rw [hx, Setting.equals_whole, decide_eq_true rfl]
  have hcolumns : J.columns = n := by rw [Tensor.columns, hshape]; rfl
  have hread : (Action.ofExcept (Supplied.array jacobian).read : Action σ (Tensor α)) =
      pure jacobian := rfl
  unfold project
  rw [hread, pure_bind, hjacobian]
  simp only [hsize, if_true, hstep, pure_bind]
  rw [Tensor.matmul_eq, hcolumns]

variable [LinearOrder K]

/-- **A central difference along a quaternion** of residuals that are affine in it is the column of
the projected Jacobian, times the sine of the step over the step. -/
theorem Manifold.Consistent.central_column (hv : v.Ordered)
    (hconsistent : (Manifold.quaternion : Manifold σ α).Consistent v xs n J)
    (hx : (Manifold.quaternion : Manifold σ α).ambientSize = .count xs.length)
    (hn : (Manifold.quaternion : Manifold σ α).tangentSize = .count n)
    (he : e.AffineIn v blocks k xs.length rows jacobian offset) {o : DiffOptions α}
    (ho : o.scheme = .central) (shown : String) (base : List α) {i : ℕ} (hi : i < n)
    (scale : α) :
    ∃ (projection : Tensor α) (column : List α),
      project (.array jacobian) (some (.quaternion : Manifold σ α)) (.vector xs) =
        pure projection ∧
      ((⟨e, blocks, k, shown, xs, some .quaternion, n⟩ : Site σ α).column o base i scale).Gives
        (fun _ => 0) column 0 ∧ column.length = rows ∧
      ∀ r < rows, v.entry column r =
        v.value (Scalar.sin (Scalar.abs (o.stepSize scale))) / |v.value (o.stepSize scale)| *
          v.value (projection.get [r, i]) := by
  have hstep : v.value (o.stepSize scale) ≠ 0 := (hv.stepSize_pos o scale).ne'
  obtain ⟨ahead, behind, hla, hlb, hplus, hplus', hquotient⟩ :=
    hconsistent.plus_quaternion rfl i hi (o.stepSize scale) hstep
  obtain ⟨after, hafter, hgives, hentry⟩ := he.residuals_gives shown hla hplus
  obtain ⟨before, hbefore, hgives', hentry'⟩ := he.residuals_gives shown hlb hplus'
  refine ⟨_, (List.zipWith (· - ·) after before).map (· / (Scalar.two * o.stepSize scale)),
    project_of_plusJacobian hx hn (hconsistent.plusJacobian_eq rfl) hconsistent.shape_eq
      he.shape_eq, ?_, by simp [hafter, hbefore], fun r hr => ?_⟩
  · unfold Site.column
    simp only [ho]
    exact hgives.bind_free (hgives'.bind_pure fun behind =>
      (List.zipWith (· - ·) after behind).map (· / (Scalar.two * o.stepSize scale)))
  · have htwo : v.value (Scalar.two * o.stepSize scale) = 2 * v.value (o.stepSize scale) := by
      rw [v.value_mul, Scalar.two, v.value_add, v.value_one, one_add_one_eq_two]
    have hcolumn : v.entry ((List.zipWith (· - ·) after before).map
        (· / (Scalar.two * o.stepSize scale))) r =
          (v.entry after r - v.entry before r) / (2 * v.value (o.stepSize scale)) := by
      rw [FieldReading.entry_of_lt (by simp [hafter, hbefore, hr]),
        FieldReading.entry_of_lt (hafter ▸ hr), FieldReading.entry_of_lt (hbefore ▸ hr),
        List.getElem_map, List.getElem_zipWith, v.value_div, v.value_sub, htwo]
    rw [hcolumn, Tensor.get_matrix _ hr hi, FieldReading.value_dot, hentry r hr, hentry' r hr,
      add_sub_add_left_eq_sub, ← Finset.sum_sub_distrib, Finset.sum_div, Finset.mul_sum]
    refine Finset.sum_congr rfl fun c hc => ?_
    rw [← mul_sub, mul_div_assoc, hquotient c (Finset.mem_range.1 hc), mul_left_comm]

end Central

/-- **The steps of the library's manifolds agree with their derivatives.** In exact arithmetic there
is a matrix with which the step from a point is consistent. Along a quaternion, a central difference
of residuals that are affine in it is the column of the projected Jacobian, times the sine of the
step over the step. -/
theorem Manifold.plus_agrees [LinearOrder K] [IsStrictOrderedRing K] (hv : v.Rooted)
    (m : Manifold σ α) (hm : ∀ custom, m ≠ .custom custom) {xs : List α} {n : ℕ}
    (hx : m.ambientSize = .count xs.length) (hn : m.tangentSize = .count n) :
    (∃ J, m.Consistent v xs n J) ∧
    (m = .quaternion → ∀ (e : Evaluator σ α) (blocks : List (List α)) (k rows : ℕ)
      (shown : String) (jacobian : Tensor α) (offset : ℕ → K),
      e.AffineIn v blocks k xs.length rows jacobian offset →
      ∀ (o : DiffOptions α), o.scheme = .central → ∀ (base : List α) (i : ℕ), i < n → ∀ scale,
        ∃ (projection : Tensor α) (column : List α),
          project (.array jacobian) (some m) (.vector xs) = pure projection ∧
          ((⟨e, blocks, k, shown, xs, some m, n⟩ : Site σ α).column o base i scale).Gives
            (fun _ => 0) column 0 ∧ column.length = rows ∧
          ∀ r < rows, v.entry column r =
            v.value (Scalar.sin (Scalar.abs (o.stepSize scale))) / |v.value (o.stepSize scale)| *
              v.value (projection.get [r, i])) := by
  obtain ⟨J, hconsistent⟩ := exists_consistent hv m hm hx hn
  refine ⟨⟨J, hconsistent⟩, ?_⟩
  rintro rfl e blocks k rows shown jacobian offset he o ho base i hi scale
  exact hconsistent.central_column hv.toOrdered hx hn he ho shown base hi scale

/-! ### Rational roots -/

/-- Rational numbers with the roots of squares. -/
@[reducible] def withRoots : Inexact := { rough with sqrt := Rat.sqrt }

theorem withRoots_rooted :
    letI := withRoots
    Exact.reading.Rooted := by
  let := withRoots
  refine { Exact.reading_ordered with value_neg := Exact.value_neg, value_sqrt := ?_ }
  intro x y hxy
  show Rat.sqrt x.value = |y|
  rw [show x.value = y * y from hxy, Rat.sqrt_eq]

/-- The difference of the first two entries of a block. -/
def firstDifference [Inexact] : Evaluator Unit Exact where
  blockSizes := [.count 4]
  numResiduals := .count 1
  evaluate parameters _ := Action.ofExcept do
    match ← parameters.mapM Supplied.entries with
    | [[w, x, _, _]] => return some ⟨.vector [w - x], none⟩
    | _ => throw .entryIndex

/-- The quaternion `1 + 2 i + 3 j + 4 k`. -/
def slantedQuaternion : List Exact := [⟨1⟩, ⟨2⟩, ⟨3⟩, ⟨4⟩]

/-- Central differences with the steps of the extrapolation. -/
def twoSided [Inexact] : DiffOptions Exact := { extrapolating with scheme := .central }

theorem firstDifference_affine [Inexact] :
    firstDifference.AffineIn Exact.reading [slantedQuaternion] 0 slantedQuaternion.length 1
      (.matrix 1 4 fun _ c => if c = 0 then ⟨1⟩ else if c = 1 then ⟨-1⟩ else ⟨0⟩)
      (fun _ => 0) where
  numResiduals_eq := rfl
  shape_eq := rfl
  evaluates moved hl := by
    obtain ⟨w, x, y, z, rfl⟩ := Quaternion.eq_of_length hl
    refine ⟨[w - x], rfl, fun r hr => ?_, fun machine w => ⟨_, w, rfl, rfl⟩⟩
    obtain rfl : r = 0 := by omega
    have hget : ∀ c < 4, (Tensor.matrix 1 4 fun _ c : ℕ => if c = 0 then (⟨1⟩ : Exact) else
        if c = 1 then ⟨-1⟩ else ⟨0⟩).get [0, c] =
          if c = 0 then ⟨1⟩ else if c = 1 then ⟨-1⟩ else ⟨0⟩ := fun c hc =>
      Tensor.get_matrix _ one_pos hc
    show _ = 0 + ∑ c ∈ Finset.range 4, _
    simp [Finset.sum_range_succ, hget, FieldReading.entry, Exact.reading, sub_eq_add_neg]

theorem plus_agrees_slanted :
    letI := withRoots
    (∃ J, (Manifold.quaternion : Manifold Unit Exact).Consistent Exact.reading slantedQuaternion
      3 J) ∧
    ∃ (projection : Tensor Exact) (column : List Exact),
      ((⟨firstDifference, [slantedQuaternion], 0, "0", slantedQuaternion, some .quaternion, 3⟩ :
        Site Unit Exact).column twoSided [] 0 ⟨4⟩).Gives (fun _ => 0) column 0 ∧
      Exact.reading.entry column 0 =
        (Scalar.sin (Scalar.abs (twoSided.stepSize ⟨4⟩))).value /
          |(twoSided.stepSize ⟨4⟩).value| * (projection.get [0, 0]).value := by
  let := withRoots
  obtain ⟨hconsistent, hcolumns⟩ := Manifold.plus_agrees withRoots_rooted
    (Manifold.quaternion : Manifold Unit Exact) nofun
    (show _ = Setting.count slantedQuaternion.length from rfl) (show _ = Setting.count 3 from rfl)
  obtain ⟨projection, column, -, hgives, -, hentry⟩ := hcolumns rfl firstDifference
    [slantedQuaternion] 0 1 "0" _ _ firstDifference_affine twoSided rfl [] 0 (by decide) ⟨4⟩
  exact ⟨hconsistent, projection, column, hgives, hentry 0 (by decide)⟩

end JacobianAudit
