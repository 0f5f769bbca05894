/-
**The tolerance is a threshold and nothing else.**

A probe with a record compares within a tolerance, block by block and entry by entry, lists what
offends, and judges the worst error of all. None of the numbers that it records depends on the
tolerance, and neither does how far it gets: the verdict changes exactly where the tolerance passes
the worst error.

Main results:

* `JacobianAudit.Checker.compare_tolerance` — the worst errors do not depend on the tolerance;
* `JacobianAudit.Checker.completes_iff` — nor does how far a probe gets;
* `JacobianAudit.Checker.tolerance_only_threshold` — **the tolerance decides the verdict as a
  threshold**, and beyond that the log only.
-/

import JacobianAudit.Proofs.Interruptions
import JacobianAudit.Proofs.Surveys
import JacobianAudit.Proofs.Transparency

set_option autoImplicit false

namespace JacobianAudit

variable {σ α : Type} [Scalar α]

namespace Checker

variable {c : Checker σ α} {machine : Machine} {w w' : World σ} {blocks : List (List α)}
  {parameters : List (Supplied α)} {tolerance : α}

/-! ### Surveys that are complete -/

theorem completes_iff (hb : readBlocks parameters c.sizes = .ok blocks) :
    c.Completes machine w parameters ↔ ∃ reading progress,
      ((c.survey blocks true).perform machine w).1 = .ok (.complete reading progress) := by
  constructor
  · rintro ⟨blocks', reading, w₁, ms, w₂, hb', hread, hms⟩
    obtain rfl : blocks = blocks' := Except.ok.inj (hb.symm.trans hb')
    exact ⟨reading, _, survey_eq_complete_iff.2 ⟨w₁, ms, w₂, hread, hms, rfl⟩⟩
  · rintro ⟨reading, progress, h⟩
    obtain ⟨w₁, ms, w₂, hread, hms, -⟩ := survey_eq_complete_iff.1 h
    exact ⟨blocks, reading, w₁, ms, w₂, hb, hread, hms⟩

/-- What a complete survey projected are matrices. -/
theorem sameErrors_of_complete {reading : Reading α} {progress : Progress α} {recording : Bool}
    (h : ((c.survey blocks recording).perform machine w).1 = .ok (.complete reading progress)) :
    progress.Related SameErrors progress := by
  obtain ⟨w₁, ms, w₂, -, hms, rfl⟩ := survey_eq_complete_iff.1 h
  refine ⟨?_, rfl, rfl⟩
  rw [List.forall₂_same]
  intro t ht
  obtain ⟨m, hm, rfl⟩ := List.mem_map.1 (List.mem_append.1 ht |>.resolve_left List.not_mem_nil)
  exact ⟨hms.shape_tangent m hm, rfl, fun _ _ => rfl⟩

/-! ### Comparing within two tolerances -/

/-- Matrices that can be compared within one tolerance can be compared within any other, and the
worst error is the same. -/
theorem compare_tolerance {progress : Progress α} (h : progress.Related SameErrors progress)
    {comparisons : List (BlockComparison α)} (hc : compare progress tolerance = .ok comparisons)
    (tolerance' : α) :
    ∃ comparisons', compare progress tolerance' = .ok comparisons' ∧
      worstOfBlocks comparisons' = worstOfBlocks comparisons := by
  have halike := h.compare fun block a a' n hsame =>
    hsame.compareBlock block n tolerance tolerance'
  rw [hc] at halike
  cases hc' : compare progress tolerance' with
  | error fault =>
      rw [hc'] at halike
      cases halike
  | ok comparisons' =>
      rw [hc'] at halike
      cases halike with
      | ok hworst => exact ⟨comparisons', rfl, (worstOfBlocks_congr hworst).symm⟩

/-- Matrices that cannot be compared have different shapes. That is no failed evaluation. -/
theorem fault_of_compare {progress : Progress α} (h : progress.Related SameErrors progress)
    {fault : Fault} (hc : compare progress tolerance = .error fault) :
    ∃ cause, fault = .size cause := by
  obtain ⟨q, hq, hfault⟩ := Except.exists_of_mapM_eq_error hc
  obtain ⟨⟨a, n⟩, k⟩ := q
  have ha : a ∈ progress.tangent :=
    (List.of_mem_zip (List.mem_of_getElem? (List.mk_mem_zipIdx_iff_getElem?.1 hq))).1
  obtain ⟨rows, cols, hshape⟩ := (List.forall₂_same.1 h.tangent a ha).matrix
  simp only [compareBlock_eq hshape] at hfault
  split at hfault
  · cases hfault
  · exact ⟨_, (Except.error.inj hfault).symm⟩

/-! ### Verdicts and records -/

/-- A probe that answers was interrupted by a failed evaluation if by anything. -/
theorem evaluation_of_verdict {reading : Reading α} {progress : Progress α} {k : ℕ}
    {fault : Fault} {verdict : Bool}
    (h : (Ending.interrupted reading progress k fault).verdict tolerance = .ok verdict) :
    verdict = false ∧ ∃ cause, fault = .evaluation cause := by
  cases fault with
  | evaluation cause => exact ⟨(Except.ok.inj h).symm, cause, rfl⟩
  | _ => cases h

/-- What is left of a record that can be cleared does not depend on what was in it. -/
theorem Clears.snd_reset (h : c.Clears) (before before' : Record α) :
    (before.reset c.evaluator.numResiduals c.sizes c.tangentSizes).2 =
      (before'.reset c.evaluator.numResiduals c.sizes c.tangentSizes).2 := by
  obtain ⟨residuals, ambient, tangent, hr, ha, ht, hreset⟩ :=
    Record.of_reset ((clears_iff before).1 h)
  obtain ⟨residuals', ambient', tangent', hr', ha', ht', hreset'⟩ :=
    Record.of_reset ((clears_iff before').1 h)
  obtain rfl := Except.ok.inj (hr.symm.trans hr')
  obtain rfl := Except.ok.inj (ha.symm.trans ha')
  obtain rfl := Except.ok.inj (ht.symm.trans ht')
  rw [hreset, hreset']

/-- **How a survey is judged.** If a probe that ends as a survey says answers within one tolerance,
it does so within every other one. It says yes if the survey is complete and the worst error is
within the tolerance, and the records agree but for the log. -/
theorem ending_tolerance (hclears : c.Clears) {found : Survey α} {verdict : Bool} {n : ℕ}
    (hmatrices : ∀ reading progress, found = .complete reading progress →
      progress.Related SameErrors progress)
    (hv : (found.ending tolerance n).verdict tolerance = .ok verdict) (tolerance' : α)
    (before before' : Record α) :
    ∃ verdict', (found.ending tolerance' n).verdict tolerance' = .ok verdict' ∧
      let record := (found.ending tolerance n).record c.cap c.evaluator.numResiduals c.sizes
        c.tangentSizes before
      let record' := (found.ending tolerance' n).record c.cap c.evaluator.numResiduals c.sizes
        c.tangentSizes before'
      record' = { record with log := record'.log } ∧
      (verdict = true ↔ (∃ reading progress, found = .complete reading progress) ∧
        Scalar.le record.worst tolerance = true) ∧
      (verdict' = true ↔ (∃ reading progress, found = .complete reading progress) ∧
        Scalar.le record.worst tolerance' = true) := by
  cases found with
  | faulted fault => cases hv
  | pointFailed =>
      obtain rfl : false = verdict := Except.ok.inj hv
      refine ⟨false, rfl, ?_, ?_, ?_⟩
      · simp only [Survey.ending, Ending.record, hclears.snd_reset before' before]
      · simp
      · simp
  | interrupted reading progress k fault =>
      obtain ⟨rfl, cause, rfl⟩ := evaluation_of_verdict hv
      refine ⟨false, rfl, ?_, ?_, ?_⟩
      · simp only [Survey.ending, Ending.record, hclears.snd_reset before' before]
      · simp
      · simp
  | complete reading progress =>
      have hsame := hmatrices reading progress rfl
      cases hc : compare progress tolerance with
      | error fault =>
          -- a probe that cannot compare does not answer
          simp only [Survey.ending, hc] at hv
          obtain ⟨-, cause, rfl⟩ := evaluation_of_verdict hv
          obtain ⟨cause', hfault⟩ := fault_of_compare hsame hc
          cases hfault
      | ok comparisons =>
          obtain ⟨comparisons', hc', hworst⟩ := compare_tolerance hsame hc tolerance'
          simp only [Survey.ending, hc] at hv
          simp only [Survey.ending, hc, hc', Ending.record, hworst]
          refine ⟨_, rfl, trivial, ?_, ?_⟩
          · rw [← Except.ok.inj hv]
            simp
          · rw [hworst]
            simp

/-- **The tolerance is a threshold and nothing else.** If a deterministic probe with a record
answers within some tolerance, it answers within every tolerance that is not negative. The records
are the same but for the log, and whether the blocks are compared is the same. The verdict is yes
exactly if they are and the recorded worst error is within the tolerance; so what passes within one
tolerance passes within every larger one. -/
theorem tolerance_only_threshold [OrderedScalar α] (c : Checker σ α) {states : σ → σ → Prop}
    (hc : c.Has fun _ a => a.Respects states) (hw : states w.shared w'.shared) {before : Record α}
    {verdict : Bool} {record : Record α} {w₁ : World σ}
    (h : (c.probeInto parameters tolerance before).perform machine w =
      (.ok (.ok verdict, record), w₁)) :
    (verdict = true ↔
      c.Completes machine w parameters ∧ Scalar.le record.worst tolerance = true) ∧
    (c.Completes machine w' parameters ↔ c.Completes machine w parameters) ∧
    ∀ tolerance' before', Scalar.le Scalar.zero tolerance' = true →
      ∃ verdict' record' w₁', (c.probeInto parameters tolerance' before').perform machine w' =
          (.ok (.ok verdict', record'), w₁') ∧
        record' = { record with log := record'.log } ∧
        (verdict' = true ↔
          c.Completes machine w parameters ∧ Scalar.le record.worst tolerance' = true) ∧
        (verdict = true → Scalar.le tolerance tolerance' = true → verdict' = true) := by
  obtain ⟨ending, hrun, hv, rfl⟩ := perform_probeInto_iff.1 h
  obtain ⟨hclears, blocks, hb, hat⟩ := runAt_of_verdict hrun hv
  obtain ⟨found, hfound⟩ := c.survey_answers machine w blocks true
  have hfound' : ((c.survey blocks true).perform machine w').1 = .ok found := by
    rw [← hfound]
    have hsame := survey_inherits (Action.inherited_respects states) hc blocks true machine w w' hw
    exact hsame.1.symm
  -- the two surveys found the same, and the probes end as they say
  have hending : ending = found.ending tolerance blocks.length := by
    have hfst := c.fst_perform_runAt machine w blocks tolerance true
    rw [hat, hfound] at hfst
    exact Except.ok.inj hfst
  subst hending
  have hmatrices : ∀ reading progress, found = .complete reading progress →
      progress.Related SameErrors progress := by
    rintro reading progress rfl
    exact sameErrors_of_complete hfound
  have hcompletes : c.Completes machine w parameters ↔
      ∃ reading progress, found = .complete reading progress := by
    rw [completes_iff hb, hfound]
    simp only [Except.ok.injEq]
  have hcompletes' : c.Completes machine w' parameters ↔ c.Completes machine w parameters := by
    rw [completes_iff hb, completes_iff hb, hfound, hfound']
  refine ⟨?_, hcompletes', fun tolerance' before' ht' => ?_⟩
  · rw [hcompletes]
    obtain ⟨_, _, _, hverdict, -⟩ := ending_tolerance hclears hmatrices hv tolerance before before
    exact hverdict
  · obtain ⟨verdict', hv', hrecord, hverdict, hverdict'⟩ :=
      ending_tolerance hclears hmatrices hv tolerance' before before'
    have hrun' : ((c.run parameters tolerance' true).perform machine w').1 =
        .ok (found.ending tolerance' blocks.length) := by
      rw [run_eq_runAt ht' hb fun _ => hclears, fst_perform_runAt, hfound']
      rfl
    refine ⟨verdict', _, _, perform_probeInto_iff.2 ⟨_, eq_mk_of_fst hrun', hv', rfl⟩, hrecord,
      ?_, ?_⟩
    · rw [hcompletes]
      exact hverdict'
    · intro hyes hle
      obtain ⟨hcomplete, hworst⟩ := hverdict.1 hyes
      exact hverdict'.2 ⟨hcomplete, OrderedScalar.le_trans hworst hle⟩

end Checker

/-- Its functions call nobody, and neither does its manifold. -/
theorem slantedChecker_has {P : (β : Type) → Action Unit β → Prop} (hP : Action.Inherited P) :
    slantedChecker.Has P :=
  ⟨Functions.evaluate_inherits hP (slanted_has hP.chained),
    slantedChecker_manifolds_have hP.chained⟩

theorem tolerance_only_threshold_slanted :
    ∃ record w₁, (slantedChecker.probeInto slantedPoint 1e-9 Record.blank).perform plainMachine
        ⟨(), [], []⟩ = (.ok (.ok true, record), w₁) ∧
      Scalar.le record.worst 1e-9 = true ∧
      ∃ record' w₂, (slantedChecker.probeInto slantedPoint 1e-6 Record.blank).perform plainMachine
        ⟨(), [], []⟩ = (.ok (.ok true, record'), w₂) ∧ record'.worst = record.worst := by
  have hinto : ((slantedChecker.probeInto slantedPoint 1e-9 Record.blank).perform plainMachine
      ⟨(), [], []⟩).1.map Prod.fst = .ok (.ok true) := by decide +kernel
  obtain ⟨⟨verdict, record⟩, hr, rfl⟩ := Except.map_eq_ok_iff.1 hinto
  have hc : slantedChecker.Has fun _ a => a.Respects fun _ _ => True :=
    slantedChecker_has (Action.inherited_respects _)
  have ht : Scalar.le Scalar.zero (1e-6 : Float) = true := by decide +kernel
  have hle : Scalar.le (1e-9 : Float) 1e-6 = true := by decide +kernel
  let start : World Unit := ⟨(), [], []⟩
  have hstart : (fun _ _ => True : Unit → Unit → Prop) start.shared start.shared := trivial
  obtain ⟨hverdict, -, hother⟩ :=
    Checker.tolerance_only_threshold slantedChecker hc hstart (eq_mk_of_fst hr)
  obtain ⟨verdict, record', w₂, hr', hrecord, -, hlarger⟩ := hother 1e-6 Record.blank ht
  obtain rfl : verdict = true := hlarger rfl hle
  exact ⟨record, _, eq_mk_of_fst hr, (hverdict.1 rfl).2, record', w₂, hr', by rw [hrecord]⟩

end JacobianAudit
