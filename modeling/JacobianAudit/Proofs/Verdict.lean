/-
**What the verdict of a probe means.**

A probe answers yes for one reason only: the evaluator had a value at the point, every projection
and every differentiation that was made gave a matrix, and in every block every entry of the
projected Jacobian agrees with the numeric one within the tolerance. The record's log is made on
another way, from the fragments of the blocks that failed, and it is empty for exactly the same
probes.

Main definitions:

* `JacobianAudit.Checker.Agrees` — the evaluator has a value at the point, every block can be
  differentiated, and all of them agree.

Main results:

* `JacobianAudit.Checker.verdict_iff_agrees` — what a verdict means, however the probe was run;
* `JacobianAudit.Checker.log_eq_empty_iff` — the log is empty exactly when the verdict is yes;
* `JacobianAudit.Checker.verdict_correct` — **the two together, for probes with and without a
  record**.
-/

import JacobianAudit.Binary64.Instance
import JacobianAudit.Evaluator.Functions
import JacobianAudit.Proofs.Reading
import JacobianAudit.Proofs.Stages

set_option autoImplicit false

namespace JacobianAudit

variable {σ α : Type}

/-! ### Sizes of what was read -/

/-- What holds of all pairs of Jacobians that are compared holds of every block. -/
theorem forall_pairs_iff {q : Tensor α × Tensor α → Prop} {ms : List (BlockMatrices α)} :
    (∀ p ∈ (((Progress.extend {} ms).tangent.zip (Progress.extend {} ms).numericTangent).zipIdx :
        List ((Tensor α × Tensor α) × ℕ)), q p.1) ↔
      ∀ m ∈ ms, q (m.tangent, m.numericTangent) := by
  have hfst : ∀ l : List (Tensor α × Tensor α), (∀ p ∈ l.zipIdx, q p.1) ↔ ∀ x ∈ l, q x := by
    intro l
    conv_rhs => rw [← List.zipIdx_map_fst 0 l]
    simp only [List.forall_mem_map]
  rw [hfst]
  simp [Progress.extend, List.zip_map']

variable [Scalar α]

/-- A projected Jacobian is a matrix. -/
theorem shape_of_project {jacobian : Tensor α} {manifold : Option (Manifold σ α)}
    {point : Supplied α} {machine : Machine} {w w' : World σ} {t : Tensor α}
    (h : (project (.array jacobian) manifold point).perform machine w = (.ok t, w')) :
    ∃ rows cols, t.shape = [rows, cols] := by
  unfold project at h
  obtain ⟨j, w₁, hj, h⟩ := Action.perform_bind_eq_ok_iff.1 h
  obtain ⟨rfl, rfl⟩ : jacobian = j ∧ w = w₁ := by simpa using hj
  split at h
  · rename_i rows cols hshape
    cases manifold with
    | none =>
        obtain ⟨rfl, rfl⟩ : jacobian = t ∧ w = w' := by simpa using h
        exact ⟨rows, cols, hshape⟩
    | some m =>
        simp only [] at h
        split at h
        · obtain ⟨step, _, _, h⟩ := Action.perform_bind_eq_ok_iff.1 h
          obtain ⟨rfl, rfl⟩ := by simpa using h
          exact ⟨rows, step.columns, by rw [Tensor.matmul_eq, Tensor.shape_matrix]⟩
        · simp at h
  · simp at h

namespace Checker

variable {c : Checker σ α} {machine : Machine} {w w' : World σ} {tolerance : α}
  {parameters : List (Supplied α)} {recording : Bool}

/-- What the evaluator answered where a reading succeeded. -/
theorem of_read {blocks : List (List α)} {reading : Reading α}
    (h : (c.read blocks).perform machine w = (.ok (some reading), w')) :
    ∃ answer jacobians,
      (c.evaluator.evaluate (blocks.map .vector) (some (blocks.map fun _ => true))).perform
        machine w = (.ok (some answer), w') ∧
      readResiduals answer.residuals c.evaluator.numResiduals = .ok reading.residuals ∧
      answer.jacobians = some jacobians ∧ jacobians.length = blocks.length ∧
      ((jacobians.zip c.sizes).zipIdx.mapM fun p => readMatrix p.1.1 c.evaluator.numResiduals p.1.2
        ("Jacobian of block " ++ toString p.2)) = .ok reading.jacobians := by
  unfold read at h
  obtain ⟨answer, w₁, hanswer, h⟩ := Action.perform_bind_eq_ok_iff.1 h
  cases answer with
  | none => simp at h
  | some answer =>
      simp only [] at h
      obtain ⟨residuals, w₂, hresiduals, h⟩ := Action.perform_bind_eq_ok_iff.1 h
      cases hj : answer.jacobians with
      | none => simp [hj] at h
      | some jacobians =>
          simp only [hj] at h
          split at h
          · rename_i hlen
            obtain ⟨ts, w₃, hts, h⟩ := Action.perform_bind_eq_ok_iff.1 h
            rw [Action.perform_ofExcept, Prod.mk.injEq] at hresiduals hts
            obtain ⟨hresiduals, rfl⟩ := hresiduals
            obtain ⟨hts, rfl⟩ := hts
            obtain ⟨rfl, rfl⟩ := by simpa using h
            exact ⟨answer, jacobians, hanswer, hresiduals, hj, hlen, hts⟩
          · simp at h

/-- One Jacobian per block is read. -/
theorem length_of_read {blocks : List (List α)} {reading : Reading α}
    (hb : blocks.length = c.spaces.length)
    (h : (c.read blocks).perform machine w = (.ok (some reading), w')) :
    reading.jacobians.length = c.spaces.length := by
  obtain ⟨_, _, _, _, _, hlen, hread⟩ := of_read h
  have hl := (Except.mapM_eq_ok_iff.1 hread).length_eq
  simpa [sizes, hlen, hb] using hl.symm

/-! ### Agreement -/

/-- The evaluator has a value at the point, every projection and every differentiation that is
made from there on answers with a matrix, and in each block the projected Jacobian agrees with the
numeric one within the tolerance. -/
def Agrees (c : Checker σ α) (machine : Machine) (w : World σ) (parameters : List (Supplied α))
    (tolerance : α) (recording : Bool) : Prop :=
  ∃ blocks reading w₁ ms w₂,
    readBlocks parameters c.sizes = .ok blocks ∧
      (c.read blocks).perform machine w = (.ok (some reading), w₁) ∧
      c.Differentiates machine blocks reading.residuals recording
        (c.tasks blocks reading.jacobians) w₁ ms w₂ ∧
      ms.length = c.spaces.length ∧
      ∀ m ∈ ms, Within tolerance m.tangent m.numericTangent

/-- The projected Jacobians of a run over the blocks are matrices. -/
theorem Differentiates.shape_tangent {blocks : List (List α)} {residuals : List α}
    {todo : List (ℕ × BlockSpace σ α × List α × Tensor α)} {ms : List (BlockMatrices α)}
    (h : c.Differentiates machine blocks residuals recording todo w ms w') :
    ∀ m ∈ ms, ∃ rows cols, m.tangent.shape = [rows, cols] := by
  induction h with
  | nil => simp
  | cons hp _ _ ih =>
      intro m hm
      rcases List.mem_cons.1 hm with rfl | hm
      · exact shape_of_project hp
      · exact ih m hm

theorem of_verdict_true {ending : Ending α} (h : ending.verdict tolerance = .ok true) :
    ∃ reading progress comparisons, ending = .compared reading progress comparisons ∧
      Scalar.le (worstOfBlocks comparisons) tolerance = true := by
  cases ending with
  | refused fault => cases h
  | faulted fault => cases h
  | pointFailed => cases h
  | interrupted reading progress k fault => cases fault <;> cases h
  | compared reading progress comparisons => exact ⟨_, _, _, rfl, Except.ok.inj h⟩

/-- Matrices of one shape can be compared, block by block. -/
theorem exists_compare (tolerance : α) {ms : List (BlockMatrices α)}
    (h : ∀ m ∈ ms, ∃ rows cols, m.tangent.shape = [rows, cols] ∧
      m.numericTangent.shape = [rows, cols]) :
    ∃ comparisons, compare (Progress.extend {} ms) tolerance = .ok comparisons := by
  obtain ⟨comparisons, hcs⟩ := exists_comparisons tolerance
    ((forall_pairs_iff (q := fun p => ∃ rows cols, p.1.shape = [rows, cols] ∧
      p.2.shape = [rows, cols])).2 h)
  exact ⟨comparisons, Except.mapM_eq_ok_iff.2 hcs⟩

variable [OrderedScalar α]

/-- The worst error of a run over the blocks is within the tolerance exactly when they agree. -/
theorem worst_le_iff_within {blocks : List (List α)} {residuals : List α}
    {todo : List (ℕ × BlockSpace σ α × List α × Tensor α)} {ms : List (BlockMatrices α)}
    {comparisons : List (BlockComparison α)} (ht : Scalar.le Scalar.zero tolerance = true)
    (hms : c.Differentiates machine blocks residuals recording todo w ms w')
    (hc : compare (Progress.extend {} ms) tolerance = .ok comparisons) :
    Scalar.le (worstOfBlocks comparisons) tolerance = true ↔
      ∀ m ∈ ms, Within tolerance m.tangent m.numericTangent := by
  have hshape := forall_pairs_iff (q := fun p => ∃ rows cols, p.1.shape = [rows, cols]).2
    hms.shape_tangent
  rw [worstOfBlocks_le_iff ht, forall_worst_le_iff ht hshape (Except.mapM_eq_ok_iff.1 hc)]
  exact forall_pairs_iff (q := fun p => Within tolerance p.1 p.2)

/-- **What a verdict means**, whether or not the probe keeps a record. -/
theorem verdict_iff_agrees {ending : Ending α} {verdict : Bool}
    (hrun : (c.run parameters tolerance recording).perform machine w = (.ok ending, w'))
    (hv : ending.verdict tolerance = .ok verdict) :
    verdict = true ↔ c.Agrees machine w parameters tolerance recording := by
  obtain ⟨ht, blocks, hb, hat⟩ := of_run_verdict hrun hv
  constructor
  · rintro rfl
    obtain ⟨reading, progress, comparisons, rfl, hworst⟩ := of_verdict_true hv
    obtain ⟨w₁, ms, w₂, hread, hms, rfl, hc⟩ := (ends_of_runAt hat).of_compared
    have hlb : blocks.length = c.spaces.length := by
      rw [length_of_readBlocks hb, sizes, List.length_map]
    have hlm : ms.length = c.spaces.length :=
      hms.length_eq.trans (c.length_tasks hlb (length_of_read hlb hread))
    exact ⟨blocks, reading, w₁, ms, w₂, hb, hread, hms, hlm,
      (worst_le_iff_within ht hms hc).1 hworst⟩
  · rintro ⟨blocks', reading, w₁, ms, w₂, hb', hread, hms, -, hwithin⟩
    obtain rfl : blocks = blocks' := Except.ok.inj (hb.symm.trans hb')
    -- matrices that agree can be compared, so the probe gets to its end
    obtain ⟨comparisons, hc⟩ := exists_compare tolerance fun m hm => by
      obtain ⟨rows, cols, ha, hn, -⟩ := hwithin m hm
      exact ⟨rows, cols, ha, hn⟩
    obtain ⟨after, hdone⟩ := runAt_of_differentiates hread hms hc
    obtain ⟨rfl, -⟩ : ending = _ ∧ w' = after := by simpa using hat.symm.trans hdone
    rw [← Except.ok.inj hv]
    exact (worst_le_iff_within ht hms hc).2 hwithin

/-! ### The log -/

omit [OrderedScalar α] in
theorem forall_tolerance_eq {pairs : List ((Tensor α × Tensor α) × ℕ)}
    {comparisons : List (BlockComparison α)}
    (hm : ∀ p ∈ pairs, ∃ rows cols, p.1.1.shape = [rows, cols])
    (h : List.Forall₂ (fun p c =>
      compareBlock (.count p.2) (.array p.1.1) (.array p.1.2) tolerance = .ok c)
        pairs comparisons) :
    ∀ c ∈ comparisons, c.tolerance = tolerance := by
  induction h with
  | nil => simp
  | cons hc _ ih =>
      obtain ⟨rows, cols, ha⟩ := hm _ List.mem_cons_self
      obtain ⟨-, rfl⟩ := (compareBlock_eq_ok_iff ha).1 hc
      exact List.forall_mem_cons.2 ⟨rfl, ih fun p hp => hm p (List.mem_cons_of_mem _ hp)⟩

omit [Scalar α] [OrderedScalar α] in
theorem interruptionLog_ne_empty (k : ℕ) (cause : EvaluationFault) :
    Ending.interruptionLog k (.evaluation cause) ≠ "" := by
  intro h
  have h := (String.append_eq_empty_iff.1 h).2
  simp at h

/-- **The log is empty exactly when the verdict is yes.** -/
theorem log_eq_empty_iff {ending : Ending α} {verdict : Bool} {before : Record α}
    (hrun : (c.run parameters tolerance recording).perform machine w = (.ok ending, w'))
    (hv : ending.verdict tolerance = .ok verdict) :
    (ending.record c.cap c.evaluator.numResiduals c.sizes c.tangentSizes before).log = "" ↔
      verdict = true := by
  obtain ⟨ht, blocks, -, hat⟩ := of_run_verdict hrun hv
  cases ending with
  | refused fault => cases hv
  | faulted fault => cases hv
  | pointFailed =>
      obtain rfl : false = verdict := Except.ok.inj hv
      simp [Ending.record, Ending.pointFailure]
  | interrupted reading progress k fault =>
      cases fault with
      | evaluation cause =>
          obtain rfl : false = verdict := Except.ok.inj hv
          show Ending.interruptionLog k (.evaluation cause) = "" ↔ _
          simpa only [Bool.false_eq_true, iff_false] using interruptionLog_ne_empty k cause
      | _ => cases hv
  | compared reading progress comparisons =>
      obtain rfl := Except.ok.inj hv
      obtain ⟨w₁, ms, w₂, -, hms, rfl, hc⟩ := (ends_of_runAt hat).of_compared
      have hcs := Except.mapM_eq_ok_iff.1 hc
      have hshape := forall_pairs_iff (q := fun p => ∃ rows cols, p.1.shape = [rows, cols]).2
        hms.shape_tangent
      have htol := forall_tolerance_eq hshape hcs
      -- both sides say that every block's worst error is within the tolerance
      show diagnosticLog comparisons c.cap = "" ↔ _
      rw [diagnosticLog_eq_empty_iff, worstOfBlocks_le_iff ht]
      refine forall₂_congr fun d hd => ?_
      rw [BlockComparison.passed, htol d hd]

/-! ### Probes -/

/-- **A probe that answers says yes exactly when everything agrees**: the evaluator has a value at
the point, every projection and every differentiation made gives a matrix, and the error of every
entry of every block is within the tolerance. With a record, the log is empty exactly then. -/
theorem verdict_correct (c : Checker σ α) (machine : Machine) (w : World σ)
    (parameters : List (Supplied α)) (tolerance : α) :
    (∀ verdict w', (c.probe parameters tolerance).perform machine w = (.ok verdict, w') →
      (verdict = true ↔ c.Agrees machine w parameters tolerance false)) ∧
    (∀ before verdict record w',
      (c.probeInto parameters tolerance before).perform machine w =
        (.ok (.ok verdict, record), w') →
      (verdict = true ↔ c.Agrees machine w parameters tolerance true) ∧
        (record.log = "" ↔ verdict = true)) := by
  constructor
  · intro verdict w' h
    obtain ⟨ending, w₁, hrun, hv⟩ := Action.perform_bind_eq_ok_iff.1 h
    rw [Action.perform_ofExcept, Prod.mk.injEq] at hv
    exact verdict_iff_agrees hrun hv.1
  · intro before verdict record w' h
    obtain ⟨ending, w₁, hrun, hv⟩ := Action.perform_bind_eq_ok_iff.1 h
    rw [Action.perform_pure, Prod.mk.injEq, Except.ok.injEq, Prod.mk.injEq] at hv
    obtain ⟨⟨hv, rfl⟩, -⟩ := hv
    exact ⟨verdict_iff_agrees hrun hv, log_eq_empty_iff hrun hv⟩

end Checker

/-! ### An evaluator that is wrong where nothing moves -/

/-- The residual `2 x₀ + y₀` of two blocks `x` and `y`. Its Jacobian is wrong along `x₁`. -/
def slanted : Functions Unit Float where
  function parameters := Action.ofExcept do
    let entries ← parameters.mapM Supplied.entries
    match entries with
    | [[x, _], [y]] => return .vector [2.0 * x + y]
    | _ => throw .entryIndex
  jacobian := some fun _ => pure (some [.vector [2.0, 7.0], .vector [1.0]])
  blockSizes := [2, 1]
  numResiduals := 1

/-- The entry `x₁` held constant. -/
def secondConstant : Subset where
  size := 2
  constant := [1]
  size_pos := by decide
  constant_lt := by decide
  constant_sorted := by decide

/-- A block of two entries of which the second is held constant. -/
def firstFree {σ α : Type} : BlockSpace σ α where
  size := .count 2
  manifold := some (.subset secondConstant)
  ambient_eq m h := by
    obtain rfl := Option.some.inj h
    exact (Setting.equals_whole 2 2).trans (decide_eq_true rfl)
  tangent_range m h := by
    obtain rfl := Option.some.inj h
    exact Setting.within_whole 1 0 2

/-- The checker that holds `x₁` constant. -/
def slantedChecker : Checker Unit Float where
  evaluator := slanted.toEvaluator
  spaces := [firstFree, .plain (.count 1)]
  options := DiffOptions.standard
  cap := defaultCap

/-- A machine with one processor and nothing set. -/
def plainMachine : Machine := ⟨some 1, fun _ => none, List.range, fun _ => List.Perm.refl _⟩

/-- The point `x = (1, 5)`, `y = 3`. -/
def slantedPoint : List (Supplied Float) := [.vector [1.0, 5.0], .vector [3.0]]

theorem verdict_correct_slanted :
    ((slantedChecker.probe slantedPoint 1e-9).perform plainMachine ⟨(), [], []⟩).1 = .ok true ∧
      slantedChecker.Agrees plainMachine ⟨(), [], []⟩ slantedPoint 1e-9 false ∧
      ∃ record w', (slantedChecker.probeInto slantedPoint 1e-9 Record.blank).perform plainMachine
          ⟨(), [], []⟩ = (.ok (.ok true, record), w') ∧
        slantedChecker.Agrees plainMachine ⟨(), [], []⟩ slantedPoint 1e-9 true ∧
        record.log = "" := by
  have h := Checker.verdict_correct slantedChecker plainMachine ⟨(), [], []⟩ slantedPoint 1e-9
  have hplain : ((slantedChecker.probe slantedPoint 1e-9).perform plainMachine ⟨(), [], []⟩).1 =
      .ok true := by decide +kernel
  have hinto : ((slantedChecker.probeInto slantedPoint 1e-9 Record.blank).perform plainMachine
      ⟨(), [], []⟩).1.map Prod.fst = .ok (.ok true) := by decide +kernel
  obtain ⟨⟨verdict, record⟩, hr, rfl⟩ := Except.map_eq_ok_iff.1 hinto
  have hrecorded := h.2 Record.blank true record _ (eq_mk_of_fst hr)
  exact ⟨hplain, (h.1 true _ (eq_mk_of_fst hplain)).1 rfl, record, _, eq_mk_of_fst hr,
    hrecorded.1.1 rfl, hrecorded.2.2 rfl⟩

end JacobianAudit
