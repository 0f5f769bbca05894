/-
**Difference quotients of quadratic residuals.**

Where the residuals are polynomials in the entries of all blocks, of degree two at most, a central
difference along a straight line is the derivative itself, however long the step is; so is a forward
difference if they are affine. Extrapolation then has nothing to do: the second difference equals
the first, and the search stops there.

Main definitions:

* `JacobianAudit.Evaluator.Computes` — an evaluator whose residuals are polynomials;
* `JacobianAudit.Site.Regular` — a place where such residuals are differentiated along a line;
* `JacobianAudit.Site.trueColumn` — the derivative of the residuals along a tangent coordinate;
* `JacobianAudit.Scheme.degree`, `JacobianAudit.Scheme.evaluations` — up to which degree a scheme is
  exact, and how many evaluations a column takes.

Main results:

* `JacobianAudit.Site.centralDifference_gives`, `JacobianAudit.Site.forwardDifference_gives` —
  difference quotients are derivatives;
* `JacobianAudit.Ridders.search_gives` — **a search over equal differences stops at the second**;
* `JacobianAudit.Site.column_gives` — a column of the Jacobian, and what it costs.
-/

import JacobianAudit.Proofs.Lines
import JacobianAudit.Proofs.Straight

set_option autoImplicit false

namespace JacobianAudit

open MvPolynomial

/-! ### Polynomials in the entries of all blocks -/

/-- A polynomial in the entries of all blocks. The variable `(k, c)` stands for entry `c` of block
`k`. -/
abbrev Residual : Type := MvPolynomial (ℕ × ℕ) ℚ

/-- An entry as a number; there is a zero where there is no entry. -/
def entry (blocks : List (List Exact)) (v : ℕ × ℕ) : ℚ :=
  ((blocks[v.1]?.getD [])[v.2]?).elim 0 Exact.value

/-- The variables of a block of a size. -/
def unknowns (k n : ℕ) : Finset (ℕ × ℕ) := {k} ×ˢ Finset.range n

/-- The direction in which all blocks move if one does. -/
def heading (k n : ℕ) (d : ℕ → ℚ) (v : ℕ × ℕ) : ℚ := if v ∈ unknowns k n then d v.2 else 0

/-- Moving a block along a line moves all blocks along a line. -/
theorem entry_set_shifted {blocks : List (List Exact)} {k : ℕ} {block : List Exact}
    (h : blocks[k]? = some block) (d : ℕ → ℚ) (step : ℚ) :
    entry (blocks.set k (shifted block d step)) =
      fun v => entry blocks v + heading k block.length d v * step := by
  funext ⟨a, c⟩
  rcases eq_or_ne k a with rfl | ha
  · obtain ⟨hk, rfl⟩ := List.getElem?_eq_some_iff.1 h
    -- past its end the block has no entry to move, and none is counted
    rcases Nat.lt_or_ge c blocks[k].length with hc | hc
    · simp [entry, heading, unknowns, shifted, hk, hc]
    · simp [entry, heading, unknowns, shifted, hk, hc]
  · simp [entry, heading, unknowns, ha]

/-- The values of polynomials at the blocks. -/
noncomputable def valuesAt (p : List Residual) (blocks : List (List Exact)) : List Exact :=
  p.map fun q => ⟨eval (entry blocks) q⟩

@[simp] theorem length_valuesAt (p : List Residual) (blocks : List (List Exact)) :
    (valuesAt p blocks).length = p.length := List.length_map _

/-- The derivative of residual `r` with respect to entry `c` of block `k`. -/
noncomputable def partialAt (p : List Residual) (blocks : List (List Exact)) (k r c : ℕ) : ℚ :=
  eval (entry blocks) (pderiv (k, c) (p[r]?.getD 0))

/-- The slope of a polynomial as one block moves. -/
theorem slope_heading (q : Residual) (x : ℕ × ℕ → ℚ) (k n : ℕ) (d : ℕ → ℚ) :
    slope q x (heading k n d) (unknowns k n) =
      ∑ c ∈ Finset.range n, eval x (pderiv (k, c) q) * d c := by
  rw [slope, unknowns, Finset.sum_product, Finset.sum_singleton]
  refine Finset.sum_congr rfl fun c hc => ?_
  have hmem : (k, c) ∈ unknowns k n := by simpa [unknowns] using hc
  rw [heading, if_pos hmem, mul_comm]

theorem heading_of_notMem {k n : ℕ} {d : ℕ → ℚ} : ∀ v ∉ unknowns k n, heading k n d v = 0 :=
  fun _ hv => if_neg hv

variable [Inexact] {σ : Type} {meter : σ → ℕ} {unit : ℕ} {sizes : List ℕ} {p : List Residual}

/-! ### Evaluators -/

/-- The residuals are polynomials in the entries of the blocks. Without a request for Jacobians the
evaluator has a value everywhere, and every such evaluation raises the meter by a unit. -/
structure Evaluator.Computes (e : Evaluator σ Exact) (meter : σ → ℕ) (unit : ℕ) (sizes : List ℕ)
    (p : List Residual) : Prop where
  blockSizes_eq : e.blockSizes = sizes.map .count
  numResiduals_eq : e.numResiduals = .count p.length
  evaluates : ∀ blocks : List (List Exact), blocks.map List.length = sizes → ∀ machine w,
    ∃ answer w', (e.evaluate (blocks.map .vector) none).perform machine w =
      (.ok (some answer), w') ∧ meter w'.shared = meter w.shared + unit
  entries_eq : ∀ blocks : List (List Exact), blocks.map List.length = sizes →
    ∀ request machine w answer w', (e.evaluate (blocks.map .vector) request).perform machine w =
      (.ok (some answer), w') → answer.residuals.entries = .ok (valuesAt p blocks)

/-- The residuals of an answer, as they are read. -/
theorem Evaluator.Computes.read_eq {e : Evaluator σ Exact} (he : e.Computes meter unit sizes p)
    {blocks : List (List Exact)} {residuals : Supplied Exact}
    (h : residuals.entries = .ok (valuesAt p blocks)) :
    readResiduals residuals e.numResiduals = .ok (valuesAt p blocks) := by
  have hread := readResiduals_of_entries h
  rwa [length_valuesAt, ← he.numResiduals_eq] at hread

/-- Evaluating at some blocks. -/
theorem Evaluator.Computes.residualsOnly_gives {e : Evaluator σ Exact}
    (he : e.Computes meter unit sizes p) {blocks : List (List Exact)}
    (hb : blocks.map List.length = sizes) :
    (residualsOnly e (blocks.map .vector)).Gives meter (valuesAt p blocks) unit := by
  intro machine w
  obtain ⟨answer, w', hanswer, hcost⟩ := he.evaluates blocks hb machine w
  refine ⟨w', ?_, hcost⟩
  unfold residualsOnly
  rw [Action.perform_bind_of_ok hanswer]
  simp only [he.read_eq (he.entries_eq blocks hb none machine w answer w' hanswer),
    Action.perform_ofExcept]

namespace Site

/-- A place where polynomials are differentiated along straight lines. -/
structure Regular (site : Site σ Exact) (meter : σ → ℕ) (unit : ℕ) (sizes : List ℕ)
    (p : List Residual) : Prop where
  computes : site.evaluator.Computes meter unit sizes p
  lengths_eq : site.blocks.map List.length = sizes
  block_eq : site.blocks[site.index]? = some site.block
  movesStraight : MovesStraight site.manifold site.block.length
  tangentSize_eq : site.tangentSize = width site.manifold site.block.length

variable {site : Site σ Exact}

/-- The direction in which all blocks move along a tangent coordinate. -/
def headingAlong (site : Site σ Exact) (i : ℕ) : ℕ × ℕ → ℚ :=
  heading site.index site.block.length fun c => rate site.manifold c i

/-- The polynomials after a step along a tangent coordinate. -/
noncomputable def valuesAfter (site : Site σ Exact) (p : List Residual) (i : ℕ) (step : ℚ) :
    List Exact :=
  p.map fun q => ⟨eval (fun v => entry site.blocks v + site.headingAlong i v * step) q⟩

/-- The residuals after a step are those along a line. -/
theorem residuals_gives (h : site.Regular meter unit sizes p) {i : ℕ} (hi : i < site.tangentSize)
    (step : Exact) :
    (site.residuals i step).Gives meter (site.valuesAfter p i step.value) unit := by
  -- the evaluator is asked at blocks of the same sizes
  have hlength : (site.blocks.set site.index
      (shifted site.block (fun c => rate site.manifold c i) step.value)).map List.length =
        sizes := by
    rw [map_length_set h.block_eq (length_shifted _ _ _), h.lengths_eq]
  unfold residuals
  refine (moved_gives h.movesStraight h.tangentSize_eq hi step).bind_free fun machine w => ?_
  obtain ⟨answer, w', hanswer, hcost⟩ := h.computes.evaluates _ hlength machine w
  have hentries := h.computes.entries_eq _ hlength none machine w answer w' hanswer
  refine ⟨w', ?_, hcost⟩
  rw [Action.perform_bind_of_ok hanswer]
  simp only [h.computes.read_eq hentries, Action.perform_ofExcept]
  rw [valuesAt, entry_set_shifted h.block_eq]
  rfl

/-- The derivative of the residuals along a tangent coordinate. -/
noncomputable def trueColumn (site : Site σ Exact) (p : List Residual) (i : ℕ) : List Exact :=
  p.map fun q => ⟨slope q (entry site.blocks) (site.headingAlong i)
    (unknowns site.index site.block.length)⟩

/-! ### Difference quotients -/

/-- **A central difference of quadratic residuals is their derivative**, whatever the step is. -/
theorem centralDifference_gives (h : site.Regular meter unit sizes p)
    (hp : ∀ q ∈ p, q.totalDegree ≤ 2) {i : ℕ} (hi : i < site.tangentSize) {step : Exact}
    (hstep : step.value ≠ 0) :
    (site.centralDifference i step).Gives meter (site.trueColumn p i) (2 * unit) := by
  have hquotient : (List.zipWith (· - ·) (site.valuesAfter p i step.value)
      (site.valuesAfter p i (-step).value)).map (· / (Scalar.two * step)) =
        site.trueColumn p i := by
    rw [valuesAfter, valuesAfter, List.zipWith_map, List.zipWith_self, List.map_map]
    refine List.map_congr_left fun q hq => Exact.ext ?_
    simpa using central_quotient (hp q hq) (entry site.blocks) (site.headingAlong i)
      (unknowns site.index site.block.length) heading_of_notMem hstep
  rw [← hquotient, Nat.two_mul]
  exact (residuals_gives h hi step).bind ((residuals_gives h hi (-step)).bind_pure fun behind =>
    (List.zipWith (· - ·) (site.valuesAfter p i step.value) behind).map (· / (Scalar.two * step)))

/-- **A forward difference of affine residuals is their derivative**, whatever the step is. -/
theorem forwardDifference_gives (h : site.Regular meter unit sizes p)
    (hp : ∀ q ∈ p, q.totalDegree ≤ 1) {i : ℕ} (hi : i < site.tangentSize) {step : Exact}
    (hstep : step.value ≠ 0) :
    (site.forwardDifference (valuesAt p site.blocks) i step).Gives meter (site.trueColumn p i)
      unit := by
  have hquotient : (List.zipWith (· - ·) (site.valuesAfter p i step.value)
      (valuesAt p site.blocks)).map (· / step) = site.trueColumn p i := by
    rw [valuesAfter, valuesAt, List.zipWith_map, List.zipWith_self, List.map_map]
    refine List.map_congr_left fun q hq => Exact.ext ?_
    simpa using forward_quotient (hp q hq) (entry site.blocks) (site.headingAlong i)
      (unknowns site.index site.block.length) heading_of_notMem hstep
  rw [← hquotient]
  exact (residuals_gives h hi step).bind_pure fun ahead =>
    (List.zipWith (· - ·) ahead (valuesAt p site.blocks)).map (· / step)

end Site

/-! ### Extrapolation -/

/-- The degree up to which a scheme is exact. -/
def Scheme.degree : Scheme → ℕ
  | forward => 1
  | central => 2
  | ridders => 2

/-- How many evaluations a column takes. -/
def Scheme.evaluations : Scheme → ℕ
  | forward => 1
  | central => 2
  | ridders => 4

namespace Ridders

theorem power_shrink (o : DiffOptions Exact) :
    ∃ factor : Exact, Scalar.power o.riddersShrink 2 = .ok factor ∧ factor.value - 1 ≠ 0 := by
  have hshrink : 1 < o.riddersShrink.value := (Exact.lt_iff _ _).1 o.one_lt_riddersShrink
  refine ⟨⟨o.riddersShrink.value ^ (2 : ℤ)⟩, if_neg (by simp), ?_⟩
  -- the steps shrink, so the error term does too
  have hsquare : 1 < o.riddersShrink.value ^ (2 : ℤ) := by
    rw [zpow_ofNat]
    exact one_lt_pow₀ hshrink two_ne_zero
  exact (sub_pos.2 hsquare).ne'

/-- There is no error term to eliminate from equal estimates. -/
theorem eliminate_self {factor : Exact} (h : factor.value - 1 ≠ 0) (xs : List Exact) :
    Tableau.eliminate factor (.vector xs) (.vector xs) = .ok (.vector xs) := by
  unfold Tableau.eliminate
  rw [Tensor.zipWith_of_shape_eq _ (Tensor.shape_map _ _)]
  refine congrArg Except.ok (Tensor.ext_data rfl ?_)
  show (List.zipWith (· - ·) (xs.map (factor * ·)) xs).map (· / (factor - Scalar.one)) = xs
  rw [List.zipWith_map_left, List.zipWith_self, List.map_map]
  conv_rhs => rw [← List.map_id xs]
  refine List.map_congr_left fun x _ => Exact.ext ?_
  show (factor.value * x.value - x.value) / (factor.value - 1) = x.value
  rw [← sub_one_mul, mul_div_cancel_left₀ _ h]

/-- The row over two equal estimates. -/
theorem extend_self (o : DiffOptions Exact) (xs : List Exact) :
    Tableau.extend [.vector xs] (.vector xs) 2 o.riddersShrink =
      .ok [.vector xs, .vector xs] := by
  obtain ⟨factor, hpower, hfactor⟩ := power_shrink o
  simp only [Tableau.extend, Supplied.vector, Supplied.read_array, Tableau.eliminateFrom, bind,
    Except.bind, Nat.cast_one, mul_one, hpower, eliminate_self hfactor]
  rfl

/-- The diagonal does not change between equal estimates. -/
theorem change_self (xs : List Exact) :
    change (.vector xs) (.vector xs) = .ok (Scalar.zero : Exact) := by
  unfold change
  rw [Tensor.zipWith_of_shape_eq _ rfl]
  refine congrArg Except.ok (Exact.largest_of_zero fun x hx => ?_)
  obtain ⟨y, hy, rfl⟩ := List.mem_map.1 hx
  have hy : y ∈ List.zipWith (· - ·) xs xs := hy
  rw [List.zipWith_self] at hy
  obtain ⟨z, _, rfl⟩ := List.mem_map.1 hy
  apply Exact.ext
  simp

/-- **A search over equal differences stops at the second**, with the change zero. -/
theorem search_gives {central : Exact → Action σ (Supplied Exact)} {xs : List Exact} {cost : ℕ}
    (h : ∀ step : Exact, 0 < step.value → (central step).Gives meter (.vector xs) cost)
    {start : Exact} (hstart : 0 < start.value) (o : DiffOptions Exact) :
    ∃ s, (search central o o.riddersLevels ⟨[], start, none, none⟩).Gives meter s (2 * cost) ∧
      s.row.length = 2 ∧ s.answer = .vector xs := by
  obtain ⟨levels, hlevels⟩ : ∃ levels, o.riddersLevels = levels + 2 :=
    Nat.exists_eq_add_of_le' o.two_le_riddersLevels
  have hshrink : 1 < o.riddersShrink.value := (Exact.lt_iff _ _).1 o.one_lt_riddersShrink
  have hnext : 0 < (start / o.riddersShrink).value := div_pos hstart (one_pos.trans hshrink)
  have hstop : Scalar.lt Scalar.zero o.riddersTolerance = true := o.riddersTolerance_pos
  refine ⟨⟨[.vector xs, .vector xs], start / o.riddersShrink / o.riddersShrink,
    some (.vector xs), some (.vector xs, Scalar.zero)⟩, ?_, rfl, rfl⟩
  rw [hlevels, Nat.two_mul]
  -- the first estimate has none to be compared with
  refine (h start hstart).bind ?_
  refine (Action.Gives.ofExcept (x := [Tensor.vector xs]) rfl).bind_free ?_
  -- the second one equals it
  show (search central o (levels + 1) ⟨[.vector xs], _, some (.vector xs), none⟩).Gives _ _ _
  refine (h _ hnext).bind (n := 0) ?_
  refine (Action.Gives.ofExcept (extend_self o xs)).bind_free ?_
  refine (Action.Gives.ofExcept (change_self xs)).bind_free ?_
  rw [if_pos hstop]
  exact .pure _

end Ridders

namespace Site

variable {site : Site σ Exact}

/-- **The search along a tangent coordinate stops at the second level**, after four evaluations. -/
theorem search_gives (h : site.Regular meter unit sizes p) (hp : ∀ q ∈ p, q.totalDegree ≤ 2)
    {i : ℕ} (hi : i < site.tangentSize) (o : DiffOptions Exact) (scale : Exact) :
    ∃ s, (Ridders.search (fun step => do return .vector (← site.centralDifference i step)) o
      o.riddersLevels ⟨[], o.stepSize scale, none, none⟩).Gives meter s (4 * unit) ∧
      s.row.length = 2 ∧ s.answer = .vector (site.trueColumn p i) := by
  obtain ⟨s, hs, hrow, hanswer⟩ := Ridders.search_gives (fun step hstep =>
    (centralDifference_gives h hp hi hstep.ne').bind_pure Supplied.vector)
      (Exact.stepSize_pos o scale) o
  rw [← Nat.mul_assoc] at hs
  exact ⟨s, hs, hrow, hanswer⟩

/-- **A column of the Jacobian**, whatever the scale is. -/
theorem column_gives (h : site.Regular meter unit sizes p) {o : DiffOptions Exact}
    (hp : ∀ q ∈ p, q.totalDegree ≤ o.scheme.degree) {base : List Exact}
    (hbase : o.scheme = .forward → base = valuesAt p site.blocks) {i : ℕ}
    (hi : i < site.tangentSize) (scale : Exact) :
    (site.column o base i scale).Gives meter (site.trueColumn p i)
      (o.scheme.evaluations * unit) := by
  have hstep := (Exact.stepSize_pos o scale).ne'
  unfold column
  cases hscheme : o.scheme with
  | forward =>
      rw [hscheme] at hp
      rw [hbase hscheme]
      have hdifference := forwardDifference_gives h hp hi hstep
      rwa [← Nat.one_mul unit] at hdifference
  | central =>
      rw [hscheme] at hp
      exact centralDifference_gives h hp hi hstep
  | ridders =>
      rw [hscheme] at hp
      obtain ⟨s, hs, -, hanswer⟩ := search_gives h hp hi o scale
      have hcolumn := (hs.bind_pure Ridders.Search.answer).bind_pure Tensor.data
      rwa [hanswer] at hcolumn

end Site

end JacobianAudit
