/-
**It does not matter how coordinates are grouped in blocks.**

Two deterministic evaluators that represent the same residuals and Jacobians in two layouts are
probed at the same point. Their columns match coordinate by coordinate, so if both probes answer,
either both get to compare or both stop for the same kind of reason. If they compare, the errors of
the one are those of the other in another order, and neither the number of bad components nor the
worst error depends on the order or on where one block ends and the next begins.

One thing does depend on it. A step along a coordinate adds zero to the others of its block and not
to those of other blocks, and adding zero turns a negative zero into a positive one. So evaluators
may not tell the zeros apart, unless there is no negative zero at the point.

Main definitions:

* `JacobianAudit.Ending.Regrouped`, `JacobianAudit.SameFindings` — endings of probes in two layouts
  that answer the same;
* `JacobianAudit.Record.Regrouped` — what the records of two such probes say alike.

Main results:

* `JacobianAudit.Checker.Concludes.regrouped` — probes without manifolds that answer end the same;
* `JacobianAudit.Checker.layout_invariant` — **verdicts and records in two layouts**;
* `JacobianAudit.unnoticed_eq` — when a zero that is added is not noticed;
* `JacobianAudit.Checker.layout_not_invariant` — a residual that tells the zeros apart.
-/

import Mathlib
import JacobianAudit.Proofs.Coordinates
import JacobianAudit.Proofs.Tallies
import JacobianAudit.Proofs.Verdict
import JacobianAudit.Proofs.Zeros

set_option autoImplicit false

namespace JacobianAudit

variable {σ σ' α : Type} [Scalar α] {sizes sizes' : List ℕ} {φ : Place sizes ≃ Place sizes'}
  {rows : ℕ}

/-! ### Readings -/

/-- The same residuals, and the same columns of Jacobians. -/
structure Reading.Regrouped (φ : Place sizes ≃ Place sizes') (rows : ℕ)
    (reading reading' : Reading α) : Prop where
  residuals : reading.residuals = reading'.residuals
  jacobians : SameColumns φ rows (reading.jacobians.map Tensor.data)
    (reading'.jacobians.map Tensor.data)

namespace Checker

variable {c : Checker σ α} {c' : Checker σ' α} {near : α → α → Prop}
  {blocks blocks' : List (List α)} {machine : Machine} {w w₁ : World σ} {w' w₁' : World σ'}

/-- Reading Jacobians leaves their entries alone. -/
theorem entries_of_jacobians {jacobians : List (Supplied α)} {sizes : List Setting}
    {rows : Setting} {ts : List (Tensor α)} (hlength : jacobians.length = sizes.length)
    (h : ((jacobians.zip sizes).zipIdx.mapM fun p => readMatrix p.1.1 rows p.1.2
      ("Jacobian of block " ++ toString p.2)) = .ok ts) :
    jacobians.mapM Supplied.entries = .ok (ts.map Tensor.data) := by
  obtain ⟨hl, hone⟩ := Except.mapM_eq_ok_iff_getElem.1 h
  rw [List.length_zipIdx, List.length_zip, hlength, Nat.min_self] at hl
  refine Except.mapM_eq_ok_iff_getElem.2 ⟨by rw [hlength, hl, List.length_map], ?_⟩
  intro k hk hk'
  rw [List.length_map] at hk'
  have hmatrix := hone k (by simpa [hlength, hl] using hk') hk'
  simp only [List.getElem_zipIdx, List.getElem_zip] at hmatrix
  rw [List.getElem_map, entries_of_readMatrix hmatrix]

/-- What is read at the same point in two layouts. -/
theorem regrouped_of_read (h : c.evaluator.Regrouped near φ rows c'.evaluator)
    (hpoint : Rearranged Eq φ blocks blocks') (hsizes : c.sizes.length = blocks.length)
    (hsizes' : c'.sizes.length = blocks'.length) {found : Option (Reading α)}
    {found' : Option (Reading α)}
    (hread : ((c.read blocks).perform machine w).1 = .ok found)
    (hread' : ((c'.read blocks').perform machine w').1 = .ok found') :
    Option.Rel (Reading.Regrouped φ rows) found found' := by
  have hanswers := h.answers blocks blocks' hpoint machine w w'
  cases found with
  | none =>
      have hanswer := congrArg Prod.fst (evaluate_of_read_none (eq_mk_of_fst hread))
      cases found' with
      | none => exact .none
      | some reading' =>
          obtain ⟨answer', _, hanswer', -⟩ := of_read (eq_mk_of_fst hread')
          cases hanswers _ _ hanswer (congrArg Prod.fst hanswer')
  | some reading =>
      obtain ⟨answer, js, hanswer, hresiduals, hjs, hlength, hjacobians⟩ :=
        of_read (eq_mk_of_fst hread)
      cases found' with
      | none =>
          have hanswer' := congrArg Prod.fst (evaluate_of_read_none (eq_mk_of_fst hread'))
          cases hanswers _ _ (congrArg Prod.fst hanswer) hanswer'
      | some reading' =>
          obtain ⟨answer', js', hanswer', hresiduals', hjs', hlength', hjacobians'⟩ :=
            of_read (eq_mk_of_fst hread')
          have hrel := hanswers _ _ (congrArg Prod.fst hanswer) (congrArg Prod.fst hanswer')
          cases hrel with
          | some hrel =>
              refine .some ⟨?_, ?_⟩
              · have hentries := hrel.residuals
                rw [entries_of_readResiduals hresiduals, entries_of_readResiduals hresiduals']
                  at hentries
                exact Except.ok.inj hentries
              · exact hrel.jacobians js js' _ _ hjs hjs'
                  (entries_of_jacobians (hlength.trans hsizes.symm) hjacobians)
                  (entries_of_jacobians (hlength'.trans hsizes'.symm) hjacobians')

end Checker

/-! ### Endings -/

/-- Two probes that get to compare have computed the same columns and say the same about all errors
together. -/
structure SameFindings (φ : Place sizes ≃ Place sizes') (rows : ℕ) (recording : Bool)
    (progress progress' : Progress α) (comparisons comparisons' : List (BlockComparison α)) :
    Prop where
  shapes : progress.numericTangent.map Tensor.shape = sizes.map fun n => [rows, n]
  shapes' : progress'.numericTangent.map Tensor.shape = sizes'.map fun n => [rows, n]
  columns : SameColumns φ rows (progress.numericTangent.map Tensor.data)
    (progress'.numericTangent.map Tensor.data)
  ambient : recording = true → progress.numericAmbient = progress.numericTangent ∧
    progress'.numericAmbient = progress'.numericTangent
  bad : badComponents comparisons = badComponents comparisons'
  worst : Scalar.SameNumber (worstOfBlocks comparisons) (worstOfBlocks comparisons')

/-- The endings of two probes that answer the same. -/
inductive Ending.Regrouped (φ : Place sizes ≃ Place sizes') (rows : ℕ) (recording : Bool) :
    Ending α → Ending α → Prop
  | pointFailed : Regrouped φ rows recording .pointFailed .pointFailed
  | interrupted {reading reading' : Reading α} {progress progress' : Progress α} {k k' : ℕ}
      {cause cause' : EvaluationFault} :
      Regrouped φ rows recording (.interrupted reading progress k (.evaluation cause))
        (.interrupted reading' progress' k' (.evaluation cause'))
  | compared {reading reading' : Reading α} {progress progress' : Progress α}
      {comparisons comparisons' : List (BlockComparison α)} :
      SameFindings φ rows recording progress progress' comparisons comparisons' →
      Regrouped φ rows recording (.compared reading progress comparisons)
        (.compared reading' progress' comparisons')

namespace Checker

variable {c : Checker σ α} {c' : Checker σ' α} {near : α → α → Prop}
  {blocks blocks' : List (List α)} {machine : Machine} {w : World σ} {w' : World σ'}
  {tolerance : α} {recording : Bool} {reading reading' : Reading α}
  {progress progress' : Progress α} {column : Place sizes → List α}
  {column' : Place sizes' → List α}

/-- The errors of a probe without manifolds have the sizes of the Jacobians. -/
theorem Measured.map_length_errors
    (h : c.Measured machine blocks recording rows sizes reading progress column)
    (hjacobians : reading.jacobians.map Tensor.shape = sizes.map fun n => [rows, n]) :
    progress.errors.map List.length = sizes.map (rows * ·) := by
  have htangent := map_length_data (h.tangent ▸ hjacobians)
  rw [Progress.errors, map_length_zipWith (htangent.trans (map_length_data h.shapes).symm),
    htangent]

section Layouts

variable (h : c.evaluator.Regrouped near φ rows c'.evaluator) (ho : c'.options = c.options)
  (hpoint : Rearranged Eq φ blocks blocks') (hrefl : ∀ x, near x x) (hzero : Unnoticed near blocks)

include h ho hpoint hrefl hzero

/-- The columns of partners match. -/
theorem columnAt_matches (residuals : List α) (q : Place sizes) :
    (c.columnAt blocks residuals q.1 q.2).Matches Eq
      (c'.columnAt blocks' residuals (φ q).1 (φ q).2) := by
  unfold columnAt start
  rw [ho]
  exact h.columnAt hpoint hrefl hzero c.options _ q

variable [OrderedScalar α] (hc : c.Free rows sizes) (hc' : c'.Free rows sizes')

include hc hc'

/-- Two probes that get to compare find the same. -/
theorem sameFindings (ht : Scalar.le Scalar.zero tolerance = true)
    (hreading : reading.Regrouped φ rows reading')
    (hjacobians : reading.jacobians.map Tensor.shape = sizes.map fun n => [rows, n])
    (hjacobians' : reading'.jacobians.map Tensor.shape = sizes'.map fun n => [rows, n])
    (hm : c.Measured machine blocks recording rows sizes reading progress column)
    (hm' : c'.Measured machine blocks' recording rows sizes' reading' progress' column')
    (w : World σ) (w' : World σ')
    {comparisons comparisons' : List (BlockComparison α)}
    (hcompare : compare progress tolerance = .ok comparisons)
    (hcompare' : compare progress' tolerance = .ok comparisons') :
    SameFindings φ rows recording progress progress' comparisons comparisons' := by
  have hcolumn : ∀ q, column q = column' (φ q) := by
    intro q
    have hmatch := columnAt_matches h ho hpoint hrefl hzero reading.residuals q machine w w'
    rw [hm.columns, hreading.residuals, hm'.columns] at hmatch
    cases hmatch with
    | ok heq => exact heq
  have hcolumns : SameColumns φ rows (progress.numericTangent.map Tensor.data)
      (progress'.numericTangent.map Tensor.data) := by
    intro q r hr
    rw [hm.entries q r hr, hm'.entries (φ q) r hr, hcolumn]
  have herrors : SameColumns φ rows progress.errors progress'.errors := by
    refine SameColumns.zipWith ?_ hcolumns
    rw [hm.tangent, hm'.tangent]
    exact hreading.jacobians
  have hmatrix : ∀ {sizes : List ℕ} {ts : List (Tensor α)},
      (ts.map Tensor.shape = sizes.map fun n => [rows, n]) →
        ∀ t ∈ ts, ∃ rows cols, t.shape = [rows, cols] := by
    intro sizes ts hts t ht
    obtain ⟨n, -, hn⟩ := List.mem_map.1 (hts ▸ List.mem_map_of_mem ht)
    exact ⟨rows, n, hn.symm⟩
  obtain ⟨hbad, hworst⟩ := herrors.tallies (hm.map_length_errors hjacobians)
    (hm'.map_length_errors hjacobians') hc.pos hc'.pos hc.ne_nil hc'.ne_nil ht
    (tallies_of_compare (hm.tangent ▸ hmatrix hjacobians) hcompare)
    (tallies_of_compare (hm'.tangent ▸ hmatrix hjacobians') hcompare')
  exact ⟨hm.shapes, hm'.shapes, hcolumns, fun hr => ⟨hm.ambient hr, hm'.ambient hr⟩, hbad, hworst⟩

/-- **Two probes without manifolds that answer end the same.** -/
theorem Concludes.regrouped (ht : Scalar.le Scalar.zero tolerance = true)
    {ending ending' : Ending α}
    (hend : c.Concludes machine blocks tolerance recording rows sizes w ending)
    (hend' : c'.Concludes machine blocks' tolerance recording rows sizes' w' ending') :
    ending.Regrouped φ rows recording ending' := by
  have hreadings : ∀ {found found' : Option (Reading α)},
      ((c.read blocks).perform machine w).1 = .ok found →
      ((c'.read blocks').perform machine w').1 = .ok found' →
      Option.Rel (Reading.Regrouped φ rows) found found' :=
    regrouped_of_read h hpoint
      (by rw [hc.declares.sizes_eq, List.length_map, ← hpoint.lengths, List.length_map])
      (by rw [hc'.declares.sizes_eq, List.length_map, ← hpoint.lengths', List.length_map])
  have hmatches := fun residuals q => columnAt_matches h ho hpoint hrefl hzero residuals q machine
  cases hend with
  | pointFailed hread =>
      cases hend' with
      | pointFailed => exact .pointFailed
      | interrupted hread' => cases hreadings hread hread'
      | compared hread' => cases hreadings hread hread'
  | @interrupted reading _ _ _ q v hread hcolumn =>
      cases hend' with
      | pointFailed hread' => cases hreadings hread hread'
      | interrupted => exact .interrupted
      | compared hread' hm' =>
          -- where a column has no value its partner is no value either
          cases hreadings hread hread' with
          | some hreading =>
              have hmatch := hmatches reading.residuals q v w'
              rw [hcolumn, hreading.residuals, hm'.columns] at hmatch
              cases hmatch with
              | right _ hf => exact absurd ⟨_, rfl⟩ hf
  | @compared reading _ _ column hread hm hcompare =>
      cases hend' with
      | pointFailed hread' => cases hreadings hread hread'
      | @interrupted _ _ _ _ q v hread' hcolumn' =>
          cases hreadings hread hread' with
          | some hreading =>
              have hmatch := hmatches reading.residuals (φ.symm q) w v
              rw [hm.columns, hreading.residuals, Equiv.apply_symm_apply, hcolumn'] at hmatch
              cases hmatch with
              | left _ hf => exact absurd ⟨_, rfl⟩ hf
      | compared hread' hm' hcompare' =>
          cases hreadings hread hread' with
          | some hreading =>
              obtain ⟨-, hjacobians⟩ := hc.declares.of_read hpoint.lengths (eq_mk_of_fst hread)
              obtain ⟨-, hjacobians'⟩ := hc'.declares.of_read hpoint.lengths' (eq_mk_of_fst hread')
              exact .compared (sameFindings h ho hpoint hrefl hzero hc hc' ht hreading hjacobians
                hjacobians' hm hm' w w' hcompare hcompare')

variable {parameters parameters' : List (Supplied α)} {ending ending' : Ending α}
  {verdict verdict' : Bool} {w₁ : World σ} {w₁' : World σ'}

theorem regrouped_of_run (hread : readBlocks parameters c.sizes = .ok blocks)
    (hread' : readBlocks parameters' c'.sizes = .ok blocks')
    (hrun : (c.run parameters tolerance recording).perform machine w = (.ok ending, w₁))
    (hv : ending.verdict tolerance = .ok verdict)
    (hrun' : (c'.run parameters' tolerance recording).perform machine w' = (.ok ending', w₁'))
    (hv' : ending'.verdict tolerance = .ok verdict') :
    ending.Regrouped φ rows recording ending' := by
  obtain ⟨ht, read, hb, hat⟩ := of_run_verdict hrun hv
  obtain rfl : blocks = read := Except.ok.inj (hread.symm.trans hb)
  obtain ⟨-, read', hb', hat'⟩ := of_run_verdict hrun' hv'
  obtain rfl : blocks' = read' := Except.ok.inj (hread'.symm.trans hb')
  exact Concludes.regrouped h ho hpoint hrefl hzero hc hc' ht
    (hc.concludes hpoint.lengths (ends_of_runAt hat) hv)
    (hc'.concludes hpoint.lengths' (ends_of_runAt hat') hv')

end Layouts

/-- A probe that answers has completed exactly if it has compared. -/
theorem completes_iff_compared [OrderedScalar α] {parameters : List (Supplied α)}
    {ending : Ending α} {verdict : Bool} {w₁ : World σ}
    (hrun : (c.run parameters tolerance true).perform machine w = (.ok ending, w₁))
    (hv : ending.verdict tolerance = .ok verdict) :
    c.Completes machine w parameters ↔
      ∃ reading progress comparisons, ending = .compared reading progress comparisons := by
  obtain ⟨-, blocks, hb, hat⟩ := of_run_verdict hrun hv
  constructor
  · intro hcompletes
    obtain ⟨_, _, _, _, _, -, -, -, rfl⟩ := compared_of_completes hat hv hb hcompletes
    exact ⟨_, _, _, rfl⟩
  · rintro ⟨reading, progress, comparisons, rfl⟩
    obtain ⟨w₂, ms, w₃, hread, hms, -⟩ := (ends_of_runAt hat).of_compared
    exact ⟨blocks, reading, w₂, ms, w₃, hb, hread, hms⟩

end Checker

/-- Endings that are the same have the same verdict. -/
theorem Ending.Regrouped.verdict_eq [OrderedScalar α] {recording : Bool} {ending ending' : Ending α}
    (h : ending.Regrouped φ rows recording ending') (tolerance : α) :
    ending.verdict tolerance = ending'.verdict tolerance := by
  cases h with
  | pointFailed => rfl
  | interrupted => rfl
  | compared h => exact congrArg Except.ok (h.worst.le_eq tolerance)

/-- What two records say alike. -/
structure Record.Regrouped (φ : Place sizes ≃ Place sizes') (rows : ℕ) (record record' : Record α) :
    Prop where
  shapes : record.numericTangent.map Tensor.shape = sizes.map fun n => [rows, n]
  shapes' : record'.numericTangent.map Tensor.shape = sizes'.map fun n => [rows, n]
  columns : SameColumns φ rows (record.numericTangent.map Tensor.data)
    (record'.numericTangent.map Tensor.data)
  ambient : record.numericAmbient = record.numericTangent ∧
    record'.numericAmbient = record'.numericTangent
  worst : Scalar.SameNumber record.worst record'.worst
  reports : ∃ n, record.Reports n ∧ record'.Reports n

namespace Checker

/-- **It does not matter how coordinates are grouped in blocks.** Let two deterministic evaluators
represent the same residuals and the same Jacobians in two layouts, with the coordinates matched by
a bijection of places, and let neither have a manifold. Take two points with the same entries at
partner places, at which no evaluator notices that zero is added to an entry. If two probes at these
points answer, with the same settings and within the same tolerance, they have the same verdict.
With records, either both get to compare or both have no value at the point or both fail to
differentiate. In the first case the numeric Jacobians have the same columns, the worst errors are
equal, and the logs count as many bad components. -/
theorem layout_invariant [OrderedScalar α] (φ : Place sizes ≃ Place sizes') (rows : ℕ)
    (near : α → α → Prop) (hrefl : ∀ x, near x x) (e : Evaluator σ α) (e' : Evaluator σ' α)
    (he : e.Has fun _ a => a.Deterministic) (he' : e'.Has fun _ a => a.Deterministic)
    (h : e.Regrouped near φ rows e') (options : DiffOptions α) (cap cap' : Setting)
    (manifolds : Option (List (Option (Manifold σ α))))
    (manifolds' : Option (List (Option (Manifold σ' α))))
    (hnone : ∀ given ∈ manifolds, ∀ m ∈ given, m = none)
    (hnone' : ∀ given ∈ manifolds', ∀ m ∈ given, m = none) (c : Checker σ α) (c' : Checker σ' α)
    (hmake : make e manifolds options cap = .ok c)
    (hmake' : make e' manifolds' options cap' = .ok c') (parameters parameters' : List (Supplied α))
    (blocks blocks' : List (List α)) (hread : readBlocks parameters e.blockSizes = .ok blocks)
    (hread' : readBlocks parameters' e'.blockSizes = .ok blocks')
    (hpoint : Rearranged Eq φ blocks blocks') (hzero : Unnoticed near blocks) (tolerance : α)
    (machine : Machine) (w : World σ) (w' : World σ') :
    (∀ verdict verdict' w₁ w₁',
      (c.probe parameters tolerance).perform machine w = (.ok verdict, w₁) →
      (c'.probe parameters' tolerance).perform machine w' = (.ok verdict', w₁') →
      verdict = verdict') ∧
    ∀ before before' verdict verdict' record record' w₁ w₁',
      (c.probeInto parameters tolerance before).perform machine w =
        (.ok (.ok verdict, record), w₁) →
      (c'.probeInto parameters' tolerance before').perform machine w' =
        (.ok (.ok verdict', record'), w₁') →
      verdict = verdict' ∧ record.success = record'.success ∧
        (c.Completes machine w parameters ↔ c'.Completes machine w' parameters') ∧
        (c.Completes machine w parameters → record.Regrouped φ rows record') := by
  obtain ⟨rfl, rfl, -⟩ := of_make hmake
  obtain ⟨rfl, ho, -⟩ := of_make hmake'
  have hc := free_of_make hmake hnone he h.blockSizes h.numResiduals
  have hc' := free_of_make hmake' hnone' he' h.blockSizes' h.numResiduals'
  rw [h.blockSizes, ← hc.declares.sizes_eq] at hread
  rw [h.blockSizes', ← hc'.declares.sizes_eq] at hread'
  have hregrouped : ∀ {recording : Bool} {ending ending' : Ending α} {verdict verdict' : Bool}
      {w₁ : World σ} {w₁' : World σ'},
      (c.run parameters tolerance recording).perform machine w = (.ok ending, w₁) →
      ending.verdict tolerance = .ok verdict →
      (c'.run parameters' tolerance recording).perform machine w' = (.ok ending', w₁') →
      ending'.verdict tolerance = .ok verdict' → ending.Regrouped φ rows recording ending' :=
    regrouped_of_run h ho hpoint hrefl hzero hc hc' hread hread'
  refine ⟨fun verdict verdict' w₁ w₁' hprobe hprobe' => ?_,
    fun before before' verdict verdict' record record' w₁ w₁' hinto hinto' => ?_⟩
  · obtain ⟨ending, w₂, hrun, hv⟩ := Action.perform_bind_eq_ok_iff.1 hprobe
    obtain ⟨ending', w₂', hrun', hv'⟩ := Action.perform_bind_eq_ok_iff.1 hprobe'
    rw [Action.perform_ofExcept, Prod.mk.injEq] at hv hv'
    have hsame := (hregrouped hrun hv.1 hrun' hv'.1).verdict_eq tolerance
    exact Except.ok.inj (hv.1.symm.trans (hsame.trans hv'.1))
  · obtain ⟨ending, hrun, hv, rfl⟩ := perform_probeInto_iff.1 hinto
    obtain ⟨ending', hrun', hv', rfl⟩ := perform_probeInto_iff.1 hinto'
    have hends := hregrouped hrun hv hrun' hv'
    refine ⟨Except.ok.inj (hv.symm.trans ((hends.verdict_eq tolerance).trans hv')), ?_, ?_, ?_⟩
    · cases hends with
      | pointFailed => exact Ending.success_reset.trans Ending.success_reset.symm
      | interrupted => rfl
      | compared => rfl
    · rw [completes_iff_compared hrun hv, completes_iff_compared hrun' hv']
      cases hends with
      | pointFailed => simp
      | interrupted => simp
      | compared => simp
    · intro hcompletes
      obtain ⟨_, _, _, rfl⟩ := (completes_iff_compared hrun hv).1 hcompletes
      cases hends with
      | compared h =>
          exact ⟨h.shapes, h.shapes', h.columns, h.ambient rfl, h.worst, _,
            Ending.reports_of_compared, h.bad ▸ Ending.reports_of_compared⟩

end Checker

/-! ### Zeros that are added -/

namespace Binary64

open Float.Model (UnpackedFloat)

theorem ofModel_pack_unpack (x : Float) : Float.ofModel (.pack x.toModel.unpack) = x := by
  obtain ⟨⟨bits, valid⟩⟩ := x
  unfold Float.Model.pack Float.Model.unpack
  simp only [UnpackedFloat.pack_unpack_of_valid valid]

/-- What is computed of a number is the number, or both are zeros. -/
theorem same_of_unpacked {x : Float} {u : UnpackedFloat}
    (h : u = x.toModel.unpack ∨ (∃ s, u = .zero s) ∧ Scalar.IsZero x) :
    Same (Float.ofModel (.pack u)) x := by
  rcases h with rfl | ⟨⟨s, hs⟩, hx⟩
  · exact .inl (ofModel_pack_unpack x)
  · exact .inr ⟨isZero_pack hs, hx⟩

/-- Adding zero changes nothing but the sign of a zero. -/
theorem add_zero_same (x : Float) : Same (x + Scalar.zero) x := by
  obtain ⟨s, hs⟩ := isZero_iff.1 isZero_zero
  rw [add_eq, hs]
  refine same_of_unpacked ?_
  cases hx : x.toModel.unpack with
  | zero t =>
      refine .inr ⟨?_, isZero_iff.2 ⟨t, hx⟩⟩
      cases t <;> cases s <;> exact ⟨_, rfl⟩
  | _ => exact .inl rfl

/-- Nor does adding to zero. -/
theorem zero_add_same (x : Float) : Same (Scalar.zero + x) x := by
  obtain ⟨s, hs⟩ := isZero_iff.1 isZero_zero
  rw [add_eq, hs]
  refine same_of_unpacked ?_
  cases hx : x.toModel.unpack with
  | zero t =>
      refine .inr ⟨?_, isZero_iff.2 ⟨t, hx⟩⟩
      cases t <;> cases s <;> exact ⟨_, rfl⟩
  | _ => exact .inl rfl

/-- Adding zero changes nothing but a negative zero. -/
theorem add_zero_eq {x : Float} (hx : x.toModel.unpack ≠ .zero .negative) :
    x + Scalar.zero = x := by
  obtain ⟨s, hs⟩ := isZero_iff.1 isZero_zero
  rw [add_eq, hs]
  conv => rhs; rw [← ofModel_pack_unpack x]
  cases h : x.toModel.unpack with
  | zero t =>
      cases t with
      | positive => cases s <;> rfl
      | negative => exact absurd h hx
  | _ => rfl

end Binary64

/-- Where no entry is a negative zero, a zero that is added changes nothing. -/
theorem unnoticed_eq {blocks : List (List Float)}
    (h : ∀ block ∈ blocks, ∀ x ∈ block, x.toModel.unpack ≠ .zero .negative) :
    Unnoticed Eq blocks :=
  fun block hb x hx =>
    ⟨(Binary64.add_zero_eq (h block hb x hx)).symm, Binary64.add_zero_eq (h block hb x hx)⟩

/-! ### A residual that tells the zeros apart -/

/-- The residual `3 x` where `1 / y` is below zero, and `5 x` elsewhere. -/
def signedResidual (x y : Float) : Float := if 1.0 / y < 0.0 then 3.0 * x else 5.0 * x

/-- The residual in two blocks, `x` and `y`. -/
def signedApart : Evaluator Unit Float where
  blockSizes := [.count 1, .count 1]
  numResiduals := .count 1
  evaluate parameters request := Action.ofExcept do
    let entries ← parameters.mapM Supplied.entries
    match entries with
    | [[x], [y]] =>
      return some ⟨.vector [signedResidual x y],
        request.map fun _ => [.vector [3.0], .vector [0.0]]⟩
    | _ => throw .entryIndex

/-- The residual in a single block, `y` before `x`. -/
def signedTogether : Evaluator Unit Float where
  blockSizes := [.count 2]
  numResiduals := .count 1
  evaluate parameters request := Action.ofExcept do
    let entries ← parameters.mapM Supplied.entries
    match entries with
    | [[y, x]] =>
      return some ⟨.vector [signedResidual x y], request.map fun _ => [.vector [0.0, 3.0]]⟩
    | _ => throw .entryIndex

/-- Where the entries of the two blocks are in the single one. -/
def swapped : Place [1, 1] ≃ Place [2] where
  toFun q := ⟨0, if q.1.val = 0 then ⟨1, by decide⟩ else ⟨0, by decide⟩⟩
  invFun q := if q.2.val = 0 then ⟨1, ⟨0, by decide⟩⟩ else ⟨0, ⟨0, by decide⟩⟩
  left_inv := by decide
  right_inv := by decide

theorem Rearranged.of_swapped {near : Float → Float → Prop} {blocks blocks' : List (List Float)}
    (h : Rearranged near swapped blocks blocks') :
    ∃ x y x' y', blocks = [[x], [y]] ∧ blocks' = [[y', x']] ∧ near x x' ∧ near y y' := by
  match blocks, blocks', h.lengths, h.lengths', h with
  | [[x], [y]], [[y', x']], _, _, h =>
      exact ⟨x, y, x', y', rfl, rfl, h.entries ⟨0, ⟨0, by decide⟩⟩ x x' rfl rfl,
        h.entries ⟨1, ⟨0, by decide⟩⟩ y y' rfl rfl⟩

theorem signed_regrouped : signedApart.Regrouped Eq swapped 1 signedTogether where
  blockSizes := rfl
  blockSizes' := rfl
  numResiduals := rfl
  numResiduals' := rfl
  residuals blocks blocks' h := by
    obtain ⟨x, y, _, _, rfl, rfl, rfl, rfl⟩ := h.of_swapped
    intro machine w w'
    exact .ok rfl
  answers blocks blocks' h machine w w' answer answer' ha ha' := by
    obtain ⟨x, y, _, _, rfl, rfl, rfl, rfl⟩ := h.of_swapped
    obtain rfl := Except.ok.inj ha
    obtain rfl := Except.ok.inj ha'
    refine .some ⟨rfl, fun js js' matrices matrices' hjs hjs' hm hm' => ?_⟩
    obtain rfl := Option.some.inj hjs
    obtain rfl := Option.some.inj hjs'
    obtain rfl := Except.ok.inj hm
    obtain rfl := Except.ok.inj hm'
    intro q r hr
    obtain rfl : r = 0 := Nat.lt_one_iff.1 hr
    match q with
    | ⟨⟨0, _⟩, ⟨0, _⟩⟩ => rfl
    | ⟨⟨1, _⟩, ⟨0, _⟩⟩ => rfl

/-- The checker of the two blocks. -/
def apartChecker : Checker Unit Float where
  evaluator := signedApart
  spaces := [.plain (.count 1), .plain (.count 1)]
  options := DiffOptions.standard
  cap := defaultCap

/-- The checker of the single block. -/
def togetherChecker : Checker Unit Float where
  evaluator := signedTogether
  spaces := [.plain (.count 2)]
  options := DiffOptions.standard
  cap := defaultCap

theorem rearranged_swapped (x y : Float) : Rearranged Eq swapped [[x], [y]] [[y, x]] where
  lengths := rfl
  lengths' := rfl
  entries q z z' hz hz' := by
    match q with
    | ⟨⟨0, _⟩, ⟨0, _⟩⟩ => exact Option.some.inj (hz.symm.trans hz')
    | ⟨⟨1, _⟩, ⟨0, _⟩⟩ => exact Option.some.inj (hz.symm.trans hz')

namespace Checker

/-- **Grouping coordinates in blocks can change the verdict**: a coordinate that is a negative zero
stays one while a coordinate of another block is moved, and becomes a positive zero while one of its
own block is. -/
theorem layout_not_invariant :
    ¬∀ (sizes sizes' : List ℕ) (φ : Place sizes ≃ Place sizes') (rows : ℕ)
      (e e' : Evaluator Unit Float) (options : DiffOptions Float) (cap cap' : Setting)
      (c c' : Checker Unit Float) (parameters parameters' : List (Supplied Float))
      (blocks blocks' : List (List Float)) (tolerance : Float) (machine : Machine)
      (w w' w₁ w₁' : World Unit) (verdict verdict' : Bool),
      (e.Has fun _ a => a.Deterministic) → (e'.Has fun _ a => a.Deterministic) →
      e.Regrouped Eq φ rows e' → make e none options cap = .ok c →
      make e' none options cap' = .ok c' → readBlocks parameters e.blockSizes = .ok blocks →
      readBlocks parameters' e'.blockSizes = .ok blocks' → Rearranged Eq φ blocks blocks' →
      (c.probe parameters tolerance).perform machine w = (.ok verdict, w₁) →
      (c'.probe parameters' tolerance).perform machine w' = (.ok verdict', w₁') →
      verdict = verdict' := by
  intro h
  have hprobe : ((apartChecker.probe [.vector [0.0], .vector [-0.0]] 1e-6).perform plainMachine
      ⟨(), [], []⟩).1 = .ok true := by decide +kernel
  have hprobe' : ((togetherChecker.probe [.vector [-0.0, 0.0]] 1e-6).perform plainMachine
      ⟨(), [], []⟩).1 = .ok false := by decide +kernel
  have hsame := h [1, 1] [2] swapped 1 signedApart signedTogether DiffOptions.standard (.whole 10)
    (.whole 10) apartChecker togetherChecker _ _ [[0.0], [-0.0]] [[-0.0, 0.0]] 1e-6 plainMachine
    ⟨(), [], []⟩ ⟨(), [], []⟩ _ _ true false
    (fun _ _ => Action.inherited_deterministic.ofExcept _)
    (fun _ _ => Action.inherited_deterministic.ofExcept _) signed_regrouped rfl rfl rfl rfl
    (rearranged_swapped 0.0 (-0.0)) (eq_mk_of_fst hprobe) (eq_mk_of_fst hprobe')
  cases hsame

end Checker

theorem layout_invariant_signed :
    signedApart.Regrouped Eq swapped 1 signedTogether ∧
      Unnoticed Eq [[2.0], [-1.0]] ∧
      ∃ record record' w₁ w₁',
        (apartChecker.probeInto [.vector [2.0], .vector [-1.0]] 1e-6 Record.blank).perform
          plainMachine ⟨(), [], []⟩ = (.ok (.ok true, record), w₁) ∧
        (togetherChecker.probeInto [.vector [-1.0, 2.0]] 1e-6 Record.blank).perform
          plainMachine ⟨(), [], []⟩ = (.ok (.ok true, record'), w₁') ∧
        record.Regrouped swapped 1 record' := by
  have hnonzero : ∀ block ∈ [[2.0], [-1.0]], ∀ x ∈ block, Scalar.eq x (Scalar.zero : Float) =
      false := by decide +kernel
  have hzero : Unnoticed Eq [[2.0], [-1.0]] := by
    refine unnoticed_eq fun block hb x hx hnegative => ?_
    have hiszero : Scalar.IsZero x := Binary64.isZero_iff.2 ⟨_, hnegative⟩
    cases (hnonzero block hb x hx).symm.trans hiszero
  have hinto : ((apartChecker.probeInto [.vector [2.0], .vector [-1.0]] 1e-6 Record.blank).perform
      plainMachine ⟨(), [], []⟩).1.map Prod.fst = .ok (.ok true) := by decide +kernel
  have hinto' : ((togetherChecker.probeInto [.vector [-1.0, 2.0]] 1e-6 Record.blank).perform
      plainMachine ⟨(), [], []⟩).1.map Prod.fst = .ok (.ok true) := by decide +kernel
  obtain ⟨⟨verdict, record⟩, hr, rfl⟩ := Except.map_eq_ok_iff.1 hinto
  obtain ⟨⟨verdict', record'⟩, hr', rfl⟩ := Except.map_eq_ok_iff.1 hinto'
  have hcompletes : apartChecker.Completes plainMachine ⟨(), [], []⟩
      [.vector [2.0], .vector [-1.0]] := by
    obtain ⟨ending, hrun, hv, -⟩ := Checker.perform_probeInto_iff.1 (eq_mk_of_fst hr)
    obtain ⟨blocks, reading, w₁, ms, w₂, hb, hread, hms, -⟩ :=
      (Checker.verdict_iff_agrees hrun hv).1 rfl
    exact ⟨blocks, reading, w₁, ms, w₂, hb, hread, hms⟩
  obtain ⟨-, hrecords⟩ := Checker.layout_invariant swapped 1 Eq (fun _ => rfl) signedApart
    signedTogether (fun _ _ => Action.inherited_deterministic.ofExcept _)
    (fun _ _ => Action.inherited_deterministic.ofExcept _) signed_regrouped DiffOptions.standard
    (.whole 10) (.whole 10) none none nofun nofun apartChecker togetherChecker rfl rfl
    [.vector [2.0], .vector [-1.0]] [.vector [-1.0, 2.0]] [[2.0], [-1.0]] [[-1.0, 2.0]] rfl rfl
    (rearranged_swapped 2.0 (-1.0)) hzero 1e-6 plainMachine ⟨(), [], []⟩ ⟨(), [], []⟩
  obtain ⟨-, -, -, hregrouped⟩ := hrecords Record.blank Record.blank true true record record' _ _
    (eq_mk_of_fst hr) (eq_mk_of_fst hr')
  exact ⟨signed_regrouped, hzero, record, record', _, _, eq_mk_of_fst hr, eq_mk_of_fst hr',
    hregrouped hcompletes⟩

end JacobianAudit
