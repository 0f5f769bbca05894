/-
**What an interrupted probe leaves behind.**

A record is written in stages, and a probe can be interrupted between any two of them. This module
says what the record holds then. If the probe answers no without having compared anything, the
record tells why: either nothing but the failure at the point, or everything that was known when a
block could not be differentiated, and the number of that block. If a fault reaches the caller, the
log stays empty, and a record that was read at the point looks as if every block had passed.

Main definitions:

* `JacobianAudit.Record.ReadsAsPass` — the evaluator succeeded and the log is empty;
* `JacobianAudit.Checker.Completes` — the probe gets to compare the blocks;
* `JacobianAudit.Checker.Fails` — the evaluator or a manifold has no value where a block needs one;
* `JacobianAudit.Record.ofPoint`, `JacobianAudit.Record.ofBlock` — the records of the two failures.

Main results:

* `JacobianAudit.Checker.readsAsPass_iff` — **a record reads as a pass for two reasons**: the probe
  said yes, or a fault reached the caller after the point was read;
* `JacobianAudit.pass_read_after_fault` — the second reason occurs;
* `JacobianAudit.Checker.record_of_failure` — **what a failed probe records**.
-/

import JacobianAudit.Proofs.Endings
import JacobianAudit.Proofs.Recording
import JacobianAudit.Proofs.Transparency

set_option autoImplicit false

namespace JacobianAudit

variable {σ α : Type} [Scalar α]

namespace Record

/-- The evaluator succeeded, and no failure is logged. -/
def ReadsAsPass (r : Record α) : Prop := r.success = true ∧ r.log = ""

/-- The record of a probe that found no value at the point, made of zero arrays. The log says so. -/
def ofPoint (residuals : Tensor α) (ambient tangent : List (Tensor α)) : Record α where
  success := false
  residuals := residuals
  ambient := ambient
  numericAmbient := ambient
  tangent := tangent
  numericTangent := tangent
  worst := Scalar.zero
  log := "Function evaluation with Jacobians failed.\n"

/-- The record of a probe that could not differentiate a block, made of what was read at the point,
of the projections until then and of zero arrays. The log names the block by its number, and then
the cause. -/
def ofBlock (reading : Reading α) (projections ambient tangent : List (Tensor α)) (block : ℕ)
    (cause : EvaluationFault) : Record α where
  success := true
  residuals := .vector reading.residuals
  ambient := reading.jacobians
  numericAmbient := ambient
  tangent := projections ++ tangent.drop projections.length
  numericTangent := tangent
  worst := Scalar.zero
  log := "Numeric differentiation failed for parameter block " ++ toString block ++ ". " ++
    cause.message ++ "\n"

end Record

namespace Checker

variable {c : Checker σ α} {machine : Machine} {blocks : List (List α)} {w w' : World σ}
  {tolerance : α} {parameters : List (Supplied α)}

/-! ### Records that read as a pass -/

/-- The record is cleared, and the evaluator has a value at the point. -/
def ReadsPoint (c : Checker σ α) (machine : Machine) (w : World σ) (blocks : List (List α)) :
    Prop :=
  c.Clears ∧ ∃ reading w₁, (c.read blocks).perform machine w = (.ok (some reading), w₁)

theorem not_readsAsPass_of_reset {before : Record α} {log : String} :
    ¬Record.ReadsAsPass { (before.reset c.evaluator.numResiduals c.sizes c.tangentSizes).2 with
      log := log } := by
  rintro ⟨hsuccess, -⟩
  exact Bool.noConfusion (Ending.success_reset.symm.trans hsuccess)

/-- An interruption reads as a pass exactly if its fault reaches the caller. -/
theorem readsAsPass_interrupted_iff {reading : Reading α} {progress : Progress α} {k : ℕ}
    {fault : Fault} {before : Record α} :
    ((Ending.interrupted reading progress k fault).record c.cap c.evaluator.numResiduals c.sizes
        c.tangentSizes before).ReadsAsPass ↔
      ∃ f, (Ending.interrupted reading progress k fault).verdict tolerance = .error f := by
  constructor
  · rintro ⟨-, hlog⟩
    cases fault with
    | evaluation cause => exact absurd hlog (interruptionLog_ne_empty k cause)
    | _ => exact ⟨_, rfl⟩
  · rintro ⟨f, hf⟩
    cases fault with
    | evaluation cause => cases hf
    | _ => exact ⟨rfl, rfl⟩

theorem verdict_interrupted_ne_true {reading : Reading α} {progress : Progress α} {k : ℕ}
    {fault : Fault} :
    (Ending.interrupted reading progress k fault).verdict tolerance ≠ .ok true := by
  cases fault <;> exact nofun

/-- **A record reads as a pass for two reasons**: the probe said yes, or a fault other than a failed
evaluation reached the caller after the evaluator had answered at the point. -/
theorem readsAsPass_iff [OrderedScalar α] (c : Checker σ α) (machine : Machine) (w : World σ)
    (parameters : List (Supplied α)) (blocks : List (List α)) (tolerance : α) (before : Record α)
    (ht : Scalar.le Scalar.zero tolerance = true)
    (hb : readBlocks parameters c.sizes = .ok blocks) :
    ∃ verdict record w', (c.probeInto parameters tolerance before).perform machine w =
        (.ok (verdict, record), w') ∧
      (record.ReadsAsPass ↔ verdict = .ok true ∨
        (∃ fault, verdict = .error fault) ∧ c.ReadsPoint machine w blocks) := by
  obtain ⟨ending, w', hrun, hend⟩ := exists_ending machine w ht hb
  refine ⟨_, _, w', perform_probeInto_iff.2 ⟨ending, hrun, rfl, rfl⟩, ?_⟩
  rcases hend with ⟨hclears, hat⟩ | ⟨hclears, fault, -, rfl, -⟩
  · cases ends_of_runAt hat with
    | @faulted fault w₁ hread =>
        have hpoint : ¬c.ReadsPoint machine w blocks := by
          rintro ⟨-, reading, w₂, h⟩
          rw [hread] at h
          cases (Prod.mk.inj h).1
        simp only [hpoint, and_false, or_false]
        exact iff_of_false not_readsAsPass_of_reset nofun
    | pointFailed hread => exact iff_of_false not_readsAsPass_of_reset (by simp [Ending.verdict])
    | interrupted hread hd =>
        have hpoint : c.ReadsPoint machine w blocks := ⟨hclears, _, _, hread⟩
        simp only [hpoint, and_true, verdict_interrupted_ne_true, false_or]
        exact readsAsPass_interrupted_iff
    | incomparable hread hms hc =>
        have hpoint : c.ReadsPoint machine w blocks := ⟨hclears, _, _, hread⟩
        simp only [hpoint, and_true, verdict_interrupted_ne_true, false_or]
        exact readsAsPass_interrupted_iff
    | compared hread hms hc =>
        rw [Record.ReadsAsPass, log_eq_empty_iff hrun rfl]
        simp [Ending.record, Ending.verdict]
  · -- a record that could not be cleared does not say that the evaluator succeeded
    have hpoint : ¬c.ReadsPoint machine w blocks := fun h => hclears h.1
    simp only [hpoint, and_false, or_false]
    exact iff_of_false not_readsAsPass_of_reset nofun

end Checker

/-- A manifold of two entries of which the first can be moved. It answers with a derivative of its
step that has one column too many. -/
def overclaiming : CustomManifold Unit Float where
  name := "FirstEntry"
  ambientSize := .count 2
  tangentSize := .count 1
  plus x delta := Action.ofExcept do
    match ← x.entries, ← delta.entries with
    | [a, b], [d] => return .vector [a + d, b]
    | _, _ => throw .entryIndex
  plusJacobian _ := pure (.array (.identity 2))

/-- The checker of a block on that manifold. -/
def overclaimingChecker : Checker Unit Float where
  evaluator := pinned.toEvaluator
  spaces := [{
    size := .count 2
    manifold := some (.custom overclaiming)
    ambient_eq m h := by
      obtain rfl := Option.some.inj h
      exact (Setting.equals_whole 2 2).trans (decide_eq_true rfl)
    tangent_range m h := by
      obtain rfl := Option.some.inj h
      exact Setting.within_whole 1 0 2 }]
  options := DiffOptions.standard
  cap := defaultCap

theorem readsAsPass_iff_overclaiming :
    overclaimingChecker.ReadsPoint plainMachine ⟨(), [], []⟩ [[2.0, 1.0]] ∧
      ∃ fault record w', (overclaimingChecker.probeInto [.vector [2.0, 1.0]] 1e-6
        Record.blank).perform plainMachine ⟨(), [], []⟩ = (.ok (.error fault, record), w') ∧
          record.ReadsAsPass := by
  have hread : ((overclaimingChecker.read [[2.0, 1.0]]).perform plainMachine
      ⟨(), [], []⟩).1.map Option.isSome = .ok true := by decide +kernel
  have hpoint : overclaimingChecker.ReadsPoint plainMachine ⟨(), [], []⟩ [[2.0, 1.0]] := by
    obtain ⟨found, hfound, hsome⟩ := Except.map_eq_ok_iff.1 hread
    obtain ⟨reading, rfl⟩ := Option.isSome_iff_exists.1 hsome
    exact ⟨by rw [Checker.Clears]; decide +kernel, reading, _, eq_mk_of_fst hfound⟩
  have hinto : ((overclaimingChecker.probeInto [.vector [2.0, 1.0]] 1e-6 Record.blank).perform
      plainMachine ⟨(), [], []⟩).1.map Prod.fst =
        .ok (.error (.size (.matrixShape "plus_jacobian" [2, 2] "2" "1"))) := by decide +kernel
  obtain ⟨verdict, record, w', h, hpass⟩ := Checker.readsAsPass_iff overclaimingChecker
    plainMachine ⟨(), [], []⟩ [.vector [2.0, 1.0]] [[2.0, 1.0]] 1e-6 Record.blank
    (by decide +kernel) rfl
  rw [h] at hinto
  obtain rfl := Except.ok.inj hinto
  exact ⟨hpoint, _, record, w', h, hpass.2 (.inr ⟨⟨_, rfl⟩, hpoint⟩)⟩

/-- **A fault can leave a record that reads as a pass**: here the size of what the manifold answers
reaches the caller as a fault, and neither the flag nor the log of the record says so. -/
theorem pass_read_after_fault :
    ¬∀ (evaluator : Evaluator Unit Float)
      (manifolds : Option (List (Option (Manifold Unit Float)))) (options : DiffOptions Float)
      (cap : Setting) (c : Checker Unit Float) (machine : Machine) (w w' : World Unit)
      (parameters : List (Supplied Float)) (blocks : List (List Float)) (tolerance : Float)
      (before record : Record Float) (verdict : Except Fault Bool),
      Checker.make evaluator manifolds options cap = .ok c →
      Scalar.le Scalar.zero tolerance = true → readBlocks parameters c.sizes = .ok blocks →
      (c.probeInto parameters tolerance before).perform machine w =
        (.ok (verdict, record), w') →
      record.ReadsAsPass → verdict = .ok true := by
  intro h
  have hmake : Checker.make pinned.toEvaluator (some [some (.custom overclaiming)])
      DiffOptions.standard (.whole defaultCap) = .ok overclaimingChecker := rfl
  have hinto : ((overclaimingChecker.probeInto [.vector [2.0, 1.0]] 1e-6 Record.blank).perform
      plainMachine ⟨(), [], []⟩).1.map (fun p => (p.1, p.2.success, p.2.log)) =
        .ok (.error (.size (.matrixShape "plus_jacobian" [2, 2] "2" "1")), true, "") := by
    decide +kernel
  obtain ⟨⟨verdict, record⟩, hr, hparts⟩ := Except.map_eq_ok_iff.1 hinto
  obtain ⟨rfl, hsuccess, hlog⟩ := by simpa using hparts
  have htrue := h pinned.toEvaluator _ _ _ overclaimingChecker plainMachine ⟨(), [], []⟩ _
    [.vector [2.0, 1.0]] [[2.0, 1.0]] 1e-6 Record.blank record _ hmake (by decide +kernel) rfl
    (eq_mk_of_fst hr) ⟨hsuccess, hlog⟩
  cases htrue

/-! ### What a failed probe records -/

namespace Checker

/-- All blocks can be projected and differentiated, so the probe gets to compare them. -/
def Completes (c : Checker σ α) (machine : Machine) (w : World σ)
    (parameters : List (Supplied α)) : Prop :=
  ∃ blocks reading w₁ ms w₂, readBlocks parameters c.sizes = .ok blocks ∧
    (c.read blocks).perform machine w = (.ok (some reading), w₁) ∧
    c.Differentiates machine blocks reading.residuals true (c.tasks blocks reading.jacobians) w₁
      ms w₂

/-- The manifold or the evaluator has no value where the work on a block needs one: for the
derivative of the manifold's step, along the tangent coordinates, or along the entries. The
projection is kept if it was made. -/
inductive Fails (c : Checker σ α) (machine : Machine) (blocks : List (List α))
    (residuals : List α) (w : World σ) :
    ℕ × BlockSpace σ α × List α × Tensor α → EvaluationFault → Option (Tensor α) → Prop
  | step {k : ℕ} {space : BlockSpace σ α} {block : List α} {jacobian : Tensor α}
      {cause : EvaluationFault} {m : Manifold σ α} {w' : World σ} :
      space.manifold = some m →
      (stepJacobian m (.vector block)).perform machine w = (.error (.evaluation cause), w') →
      Fails c machine blocks residuals w (k, space, block, jacobian) cause none
  | tangent {k : ℕ} {space : BlockSpace σ α} {block : List α} {jacobian projection : Tensor α}
      {cause : EvaluationFault} {w₁ w' : World σ} :
      (project (.array jacobian) space.manifold (.vector block)).perform machine w =
        (.ok projection, w₁) →
      (c.along blocks residuals k space.manifold).perform machine w₁ =
        (.error (.evaluation cause), w') →
      Fails c machine blocks residuals w (k, space, block, jacobian) cause (some projection)
  | ambient {k : ℕ} {space : BlockSpace σ α} {block : List α}
      {jacobian projection numeric : Tensor α} {cause : EvaluationFault} {w₁ w₂ w' : World σ} :
      (project (.array jacobian) space.manifold (.vector block)).perform machine w =
        (.ok projection, w₁) →
      (c.along blocks residuals k space.manifold).perform machine w₁ = (.ok numeric, w₂) →
      space.manifold.isSome →
      (c.along blocks residuals k none).perform machine w₂ = (.error (.evaluation cause), w') →
      Fails c machine blocks residuals w (k, space, block, jacobian) cause (some projection)

variable {c : Checker σ α} {machine : Machine} {blocks : List (List α)} {w w' w₁ : World σ}
  {tolerance : α} {parameters : List (Supplied α)}

/-- Is a run over the blocks that keeps a record stopped by a fault? -/
def isStopped (c : Checker σ α) (blocks : List (List α)) : Action σ Bool := do
  match ← c.read blocks with
  | none => return false
  | some reading =>
    let done ← c.differentiate blocks reading true (c.tasks blocks reading.jacobians) {}
    return done.2.isSome

theorem not_completes_of_isStopped (hb : readBlocks parameters c.sizes = .ok blocks)
    (h : ((c.isStopped blocks).perform machine w).1 = .ok true) :
    ¬c.Completes machine w parameters := by
  rintro ⟨blocks', reading, w₁, ms, w₂, hb', hread, hms⟩
  obtain rfl : blocks = blocks' := Except.ok.inj (hb.symm.trans hb')
  have hd : (c.differentiate blocks reading true (c.tasks blocks reading.jacobians) {}).perform
      machine w₁ = (.ok (Progress.extend {} ms, none), w₂) :=
    differentiate_eq_none_iff.2 ⟨ms, hms, rfl⟩
  unfold isStopped at h
  rw [Action.perform_bind_of_ok hread] at h
  simp only [] at h
  rw [Action.perform_bind_of_ok hd] at h
  cases h

/-- A matrix is projected unless the derivative of the manifold's step is missing. -/
theorem stepJacobian_of_project {jacobian : Tensor α} {manifold : Option (Manifold σ α)}
    {point : Supplied α} {cause : EvaluationFault}
    (h : (project (.array jacobian) manifold point).perform machine w =
      (.error (.evaluation cause), w')) :
    ∃ m, manifold = some m ∧
      (stepJacobian m point).perform machine w = (.error (.evaluation cause), w') := by
  unfold project at h
  rcases Action.perform_bind_eq_error_iff.1 h with h | ⟨j, w₀, hj, h⟩
  · simp at h
  · obtain ⟨rfl, rfl⟩ : jacobian = j ∧ w = w₀ := by simpa using hj
    split at h
    · cases manifold with
      | none => simp at h
      | some m =>
          simp only [] at h
          split at h
          · rcases Action.perform_bind_eq_error_iff.1 h with h | ⟨step, _, _, h⟩
            · exact ⟨m, rfl, h⟩
            · simp at h
          · simp at h
    · simp at h

/-- A block at which a recording probe is stopped by a failed evaluation. -/
theorem Stops.fails {residuals : List α} {task : ℕ × BlockSpace σ α × List α × Tensor α}
    {cause : EvaluationFault} {kept : Option (Tensor α)}
    (h : c.Stops machine blocks residuals true w task (.evaluation cause) kept w') :
    c.Fails machine blocks residuals w task cause kept := by
  cases h with
  | projection hp =>
      obtain ⟨m, hm, hstep⟩ := stepJacobian_of_project hp
      exact .step hm hstep
  | derivative hp hn =>
      rcases of_numeric_recording_error hn with htangent | ⟨hsome, numeric, w₂, ht, hambient⟩
      · exact .tangent hp htangent
      · exact .ambient hp ht hsome hambient

/-- The tasks are numbered one after the other. -/
theorem fst_eq_length_of_tasks {jacobians : List (Tensor α)}
    {done rest : List (ℕ × BlockSpace σ α × List α × Tensor α)}
    {task : ℕ × BlockSpace σ α × List α × Tensor α}
    (h : c.tasks blocks jacobians = done ++ task :: rest) : task.1 = done.length := by
  have htask : (c.tasks blocks jacobians)[done.length]? = some task := by simp [h]
  exact (getElem?_tasks_iff.1 htask).1

/-- What is read at the point are the entries of the evaluator's answer. -/
theorem entries_of_read {reading : Reading α} (hb : blocks.length = c.spaces.length)
    (h : (c.read blocks).perform machine w = (.ok (some reading), w₁)) :
    ∃ answer jacobians,
      (c.evaluator.evaluate (blocks.map .vector) (some (blocks.map fun _ => true))).perform
        machine w = (.ok (some answer), w₁) ∧
      answer.residuals.entries = .ok reading.residuals ∧ answer.jacobians = some jacobians ∧
      List.Forall₂ (fun s t => s.entries = .ok t.data) jacobians reading.jacobians := by
  obtain ⟨answer, jacobians, hanswer, hresiduals, hj, hlen, hread⟩ := of_read h
  refine ⟨answer, jacobians, hanswer, entries_of_readResiduals hresiduals, hj, ?_⟩
  obtain ⟨hl, hone⟩ := Except.mapM_eq_ok_iff_getElem.1 hread
  have hsizes : c.sizes.length = jacobians.length := by rw [sizes, List.length_map, hlen, hb]
  simp only [List.length_zipIdx, List.length_zip, hsizes, Nat.min_self] at hl
  refine List.forall₂_iff_get.2 ⟨hl, fun k hk hk' => ?_⟩
  have hmatrix := hone k (by simpa [hsizes] using hk) hk'
  simp only [List.getElem_zipIdx, List.getElem_zip] at hmatrix
  exact entries_of_readMatrix hmatrix

/-- Where nothing is read at the point, the evaluator has answered that there is nothing. -/
theorem evaluate_of_read_none (h : (c.read blocks).perform machine w = (.ok none, w₁)) :
    (c.evaluator.evaluate (blocks.map .vector) (some (blocks.map fun _ => true))).perform
      machine w = (.ok none, w₁) := by
  unfold read at h
  obtain ⟨answer, w₂, hanswer, h⟩ := Action.perform_bind_eq_ok_iff.1 h
  cases answer with
  | none =>
      obtain ⟨-, rfl⟩ := Prod.mk.inj h
      exact hanswer
  | some answer =>
      simp only [] at h
      obtain ⟨residuals, w₃, -, h⟩ := Action.perform_bind_eq_ok_iff.1 h
      cases hj : answer.jacobians with
      | none => simp [hj] at h
      | some jacobians =>
          simp only [hj] at h
          split at h
          · obtain ⟨ts, w₄, -, h⟩ := Action.perform_bind_eq_ok_iff.1 h
            simp at h
          · simp at h

/-- A probe that reads nothing at the point only logs that. -/
theorem perform_runAt_of_read_none {recording : Bool}
    (h : (c.read blocks).perform machine w = (.ok none, w₁)) :
    (c.runAt blocks tolerance recording).perform machine w = (.ok .pointFailed,
      { w₁ with journal := w₁.journal ++ [⟨.warning, Ending.pointFailure⟩] }) := by
  unfold runAt
  rw [Action.perform_attempt_bind, h]
  rfl

/-- The record of an interruption by a failed evaluation. -/
theorem record_interrupted_eq {reading : Reading α} {progress : Progress α} {k : ℕ}
    {cause : EvaluationFault} {before : Record α} {residuals : Tensor α}
    {ambient tangent : List (Tensor α)}
    (h : (before.reset c.evaluator.numResiduals c.sizes c.tangentSizes).2 =
      ⟨false, residuals, ambient, ambient, tangent, tangent, Scalar.zero, ""⟩) :
    (Ending.interrupted reading progress k (.evaluation cause)).record c.cap
        c.evaluator.numResiduals c.sizes c.tangentSizes before =
      .ofBlock reading progress.tangent ambient tangent k cause := by
  unfold Ending.record Record.ofBlock Ending.interruptionLog Ending.differentiationFailure
  simp only [h]

/-- **What a failed probe records.** If a probe says no without having compared the blocks, then
either the evaluator had no value at the point, which is the only point that it was asked for, and
all arrays are zero; or it had one, and a block is the first that fails. Then the residuals and the
Jacobians are the evaluator's, the projections are there up to this block, which the log names, and
all numeric matrices are zero. -/
theorem record_of_failure (e : Evaluator σ α) (c : Checker (σ × List (Event α)) α)
    (he : c.evaluator = e.traced) (machine : Machine) (w w' : World (σ × List (Event α)))
    (parameters : List (Supplied α)) (tolerance : α) (before record : Record α)
    (h : (c.probeInto parameters tolerance before).perform machine w =
      (.ok (.ok false, record), w'))
    (hstop : ¬c.Completes machine w parameters) :
    ∃ blocks residuals ambient tangent, readBlocks parameters c.sizes = .ok blocks ∧
      Tensor.zeros c.evaluator.numResiduals.extents = .ok residuals ∧
      Record.zeroMatrices c.evaluator.numResiduals c.sizes = .ok ambient ∧
      Record.zeroMatrices c.evaluator.numResiduals c.tangentSizes = .ok tangent ∧
      let point := blocks.map Supplied.vector
      let request := some (blocks.map fun _ => true)
      ((((c.evaluator.evaluate point request).perform machine w).1 = .ok none ∧
          record = .ofPoint residuals ambient tangent ∧
          w'.shared.2 = w.shared.2 ++ [.called point request]) ∨
        ∃ answer jacobians reading w₁ done task rest ms w₂ cause kept,
          (c.evaluator.evaluate point request).perform machine w = (.ok (some answer), w₁) ∧
          answer.residuals.entries = .ok reading.residuals ∧
          answer.jacobians = some jacobians ∧
          List.Forall₂ (fun s t => s.entries = .ok t.data) jacobians reading.jacobians ∧
          c.tasks blocks reading.jacobians = done ++ task :: rest ∧
          c.Differentiates machine blocks reading.residuals true done w₁ ms w₂ ∧
          c.Fails machine blocks reading.residuals w₂ task cause kept ∧
          record = .ofBlock reading (ms.map (·.tangent) ++ kept.toList) ambient tangent
            done.length cause) := by
  obtain ⟨ending, hrun, hv, rfl⟩ := perform_probeInto_iff.1 h
  obtain ⟨hclears, blocks, hb, hat⟩ := runAt_of_verdict hrun hv
  obtain ⟨residuals, ambient, tangent, hresiduals, hambient, htangent, hcleared⟩ :=
    Record.of_reset ((clears_iff before).1 hclears)
  refine ⟨blocks, residuals, ambient, tangent, hb, hresiduals, hambient, htangent, ?_⟩
  have hlb : blocks.length = c.spaces.length := by
    rw [length_of_readBlocks hb, sizes, List.length_map]
  cases ends_of_runAt hat with
  | faulted => cases hv
  | @pointFailed w₁ hread =>
      have hanswer := evaluate_of_read_none hread
      refine .inl ⟨congrArg Prod.fst hanswer, ?_, ?_⟩
      · have hlog : Ending.pointFailure ++ "\n" =
            "Function evaluation with Jacobians failed.\n" := by decide
        unfold Ending.record Record.ofPoint
        simp only [hcleared, hlog]
      · -- the only event is the call at the point
        rw [perform_runAt_of_read_none hread] at hat
        obtain ⟨-, rfl⟩ := Prod.mk.inj hat
        have htrace := e.trace_evaluate (blocks.map .vector) (some (blocks.map fun _ => true))
          machine w
        rw [← he, hanswer] at htrace
        exact htrace
  | @interrupted reading progress k fault w₁ w₂ hread hd =>
      refine .inr ?_
      cases fault with
      | evaluation cause =>
          obtain ⟨answer, jacobians, hanswer, hr, hj, hentries⟩ := entries_of_read hlb hread
          obtain ⟨done, task, rest, ms, w₃, kept, htasks, rfl, hdone, hstops, rfl⟩ :=
            of_differentiate_some hd
          refine ⟨answer, jacobians, reading, w₁, done, task, rest, ms, w₃, cause, kept, hanswer,
            hr, hj, hentries, htasks, hdone, hstops.fails, ?_⟩
          rw [record_interrupted_eq hcleared, fst_eq_length_of_tasks htasks]
          simp [Progress.keep, Progress.extend]
      | _ => cases hv
  | incomparable hread hms _ => exact absurd ⟨blocks, _, _, _, _, hb, hread, hms⟩ hstop
  | compared hread hms _ => exact absurd ⟨blocks, _, _, _, _, hb, hread, hms⟩ hstop

end Checker

/-- The checker that holds `x₁` constant, where the calls of the evaluator are observed. -/
def observedPinnedChecker : Checker (Unit × List (Event Float)) Float where
  evaluator := pinned.toEvaluator.traced
  spaces := [firstFree]
  options := DiffOptions.standard
  cap := defaultCap

theorem record_of_failure_pinned :
    ¬observedPinnedChecker.Completes plainMachine ⟨((), []), [], []⟩ [.vector [2.0, 1.0]] ∧
      ∃ record w', (observedPinnedChecker.probeInto [.vector [2.0, 1.0]] 1e-9
          Record.blank).perform plainMachine ⟨((), []), [], []⟩ = (.ok (.ok false, record), w') ∧
        record.log = "Numeric differentiation failed for parameter block 0. " ++
          "Evaluation failed with block 0, tangent coordinate 1 perturbed by 0.01.\n" ∧
        ∃ reading projections ambient tangent cause,
          record = .ofBlock reading projections ambient tangent 0 cause := by
  have hb : readBlocks [.vector [2.0, 1.0]] observedPinnedChecker.sizes = .ok [[2.0, 1.0]] := rfl
  have hstop : ¬observedPinnedChecker.Completes plainMachine ⟨((), []), [], []⟩
      [.vector [2.0, 1.0]] := Checker.not_completes_of_isStopped hb (by decide +kernel)
  have hinto : ((observedPinnedChecker.probeInto [.vector [2.0, 1.0]] 1e-9 Record.blank).perform
      plainMachine ⟨((), []), [], []⟩).1.map (fun p => (p.1, p.2.success, p.2.log)) =
        .ok (.ok false, true, "Numeric differentiation failed for parameter block 0. " ++
          "Evaluation failed with block 0, tangent coordinate 1 perturbed by 0.01.\n") := by
    decide +kernel
  obtain ⟨⟨verdict, record⟩, hr, hparts⟩ := Except.map_eq_ok_iff.1 hinto
  obtain ⟨rfl, hsuccess, hlog⟩ := by simpa only [Prod.mk.injEq] using hparts
  refine ⟨hstop, record, _, eq_mk_of_fst hr, hlog, ?_⟩
  obtain ⟨blocks, residuals, ambient, tangent, -, -, -, -, h⟩ := Checker.record_of_failure
    pinned.toEvaluator observedPinnedChecker rfl plainMachine ⟨((), []), [], []⟩ _
    [.vector [2.0, 1.0]] 1e-9 Record.blank record (eq_mk_of_fst hr) hstop
  rcases h with ⟨-, rfl, -⟩ |
    ⟨_, _, reading, _, done, task, rest, ms, _, cause, kept, -, -, -, -, htasks, -, -, rfl⟩
  · cases hsuccess
  · -- there is only one block
    have hlength := congrArg List.length htasks
    simp only [Checker.tasks, List.length_map, List.length_zipIdx, List.length_zip,
      List.length_append, List.length_cons] at hlength
    have hone : observedPinnedChecker.spaces.length = 1 := rfl
    have hfirst : done.length = 0 := by omega
    rw [hfirst]
    exact ⟨_, _, _, _, _, rfl⟩

end JacobianAudit
