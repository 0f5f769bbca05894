/-
**Every probe ends.**

A probe with a record answers whatever happens: what interrupts it ends up in the verdict. This
module says what is known at each of its ends. A record that is cleared holds zero arrays of the
declared shapes, a probe that is not refused goes on at the point, and a loop over the blocks that a
fault stops got through all blocks before the one that it names.

Main definitions:

* `JacobianAudit.Checker.Clears` — there are arrays of all declared shapes, so the record is
  cleared;
* `JacobianAudit.Checker.Stops` — a fault stops the projection or the differentiation of a block.

Main results:

* `JacobianAudit.Record.of_reset` — what a cleared record holds;
* `JacobianAudit.Checker.of_differentiate_some` — **a loop that is stopped got through every block
  before**;
* `JacobianAudit.Checker.exists_ending` — a probe with a record ends, and how it gets there.
-/

import JacobianAudit.Proofs.Contracts
import JacobianAudit.Proofs.Stages

set_option autoImplicit false

namespace JacobianAudit

variable {σ α : Type}

/-- A projection that was made, put behind those computed so far. -/
def Progress.keep (progress : Progress α) (kept : Option (Tensor α)) : Progress α :=
  { progress with tangent := progress.tangent ++ kept.toList }

variable [Scalar α]

/-! ### Clearing the record -/

namespace Record

variable {numResiduals : Setting} {sizes tangentSizes : List Setting}

/-- Whether a record can be cleared does not depend on what it holds. -/
theorem fst_reset (r r' : Record α) : (r.reset numResiduals sizes tangentSizes).1 =
    (r'.reset numResiduals sizes tangentSizes).1 := by
  unfold reset
  cases (Tensor.zeros numResiduals.extents : Except Fault (Tensor α)) with
  | error fault => rfl
  | ok residuals =>
      cases (zeroMatrices numResiduals sizes : Except Fault (List (Tensor α))) with
      | error fault => rfl
      | ok ambient =>
          cases (zeroMatrices numResiduals tangentSizes : Except Fault (List (Tensor α))) with
          | error fault => rfl
          | ok tangent => rfl

/-- A record that was cleared holds zero arrays of the declared shapes, and nothing else. -/
theorem of_reset {r : Record α} (h : (r.reset numResiduals sizes tangentSizes).1 = .ok ()) :
    ∃ residuals ambient tangent, Tensor.zeros numResiduals.extents = .ok residuals ∧
      zeroMatrices numResiduals sizes = .ok ambient ∧
      zeroMatrices numResiduals tangentSizes = .ok tangent ∧
      (r.reset numResiduals sizes tangentSizes).2 =
        ⟨false, residuals, ambient, ambient, tangent, tangent, Scalar.zero, ""⟩ := by
  unfold reset at h ⊢
  cases hr : (Tensor.zeros numResiduals.extents : Except Fault (Tensor α)) with
  | error fault => simp [hr] at h
  | ok residuals =>
      cases ha : (zeroMatrices numResiduals sizes : Except Fault (List (Tensor α))) with
      | error fault => simp [hr, ha] at h
      | ok ambient =>
          cases ht : (zeroMatrices numResiduals tangentSizes : Except Fault (List (Tensor α))) with
          | error fault => simp [hr, ha, ht] at h
          | ok tangent => exact ⟨residuals, ambient, tangent, rfl, rfl, rfl, rfl⟩

end Record

namespace Checker

variable {c : Checker σ α} {machine : Machine} {blocks : List (List α)} {recording : Bool}
  {w w' : World σ} {tolerance : α} {parameters : List (Supplied α)}

/-- There are arrays of all declared shapes, so the record is cleared before the evaluator is
called. -/
def Clears (c : Checker σ α) : Prop :=
  ((Record.blank (α := α)).reset c.evaluator.numResiduals c.sizes c.tangentSizes).1 = .ok ()

/-- Any other record is cleared as well then. -/
theorem clears_iff (before : Record α) : c.Clears ↔
    (before.reset c.evaluator.numResiduals c.sizes c.tangentSizes).1 = .ok () := by
  rw [Clears, Record.fst_reset before Record.blank]

/-! ### A loop that is stopped -/

/-- A fault stops the work on a block: at its projection, or at a numeric Jacobian after the block
was projected. The projection is kept if it was made. -/
inductive Stops (c : Checker σ α) (machine : Machine) (blocks : List (List α)) (residuals : List α)
    (recording : Bool) (w : World σ) :
    ℕ × BlockSpace σ α × List α × Tensor α → Fault → Option (Tensor α) → World σ → Prop
  | projection {k : ℕ} {space : BlockSpace σ α} {block : List α} {jacobian : Tensor α}
      {fault : Fault} {w' : World σ} :
      (project (.array jacobian) space.manifold (.vector block)).perform machine w =
        (.error fault, w') →
      Stops c machine blocks residuals recording w (k, space, block, jacobian) fault none w'
  | derivative {k : ℕ} {space : BlockSpace σ α} {block : List α} {jacobian tangent : Tensor α}
      {fault : Fault} {w₁ w' : World σ} :
      (project (.array jacobian) space.manifold (.vector block)).perform machine w =
        (.ok tangent, w₁) →
      (c.numeric blocks residuals recording k space).perform machine w₁ = (.error fault, w') →
      Stops c machine blocks residuals recording w (k, space, block, jacobian) fault (some tangent)
        w'

/-- **A loop that is stopped got through every block before**, and what it has computed are the
matrices of these blocks and the projection that was made last. -/
theorem of_differentiate_some {reading : Reading α}
    {todo : List (ℕ × BlockSpace σ α × List α × Tensor α)} {before after : Progress α} {k : ℕ}
    {fault : Fault}
    (h : (c.differentiate blocks reading recording todo before).perform machine w =
      (.ok (after, some (k, fault)), w')) :
    ∃ done task rest ms w₁ kept, todo = done ++ task :: rest ∧ task.1 = k ∧
      c.Differentiates machine blocks reading.residuals recording done w ms w₁ ∧
      c.Stops machine blocks reading.residuals recording w₁ task fault kept w' ∧
      after = (before.extend ms).keep kept := by
  induction todo generalizing w before with
  | nil => cases (Prod.mk.inj h).1
  | cons task rest ih =>
      obtain ⟨i, space, block, jacobian⟩ := task
      rw [differentiate, Action.perform_attempt_bind] at h
      rcases hp : (project (.array jacobian) space.manifold (.vector block)).perform machine w with
        ⟨stop | tangent, w₁⟩
      · rw [hp] at h
        obtain ⟨hanswer, rfl⟩ := Prod.mk.inj h
        obtain ⟨rfl, hstop⟩ := Prod.mk.inj (Except.ok.inj hanswer)
        obtain ⟨rfl, rfl⟩ := Prod.mk.inj (Option.some.inj hstop)
        exact ⟨[], _, rest, [], w, none, rfl, rfl, .nil, .projection hp,
          by simp [Progress.keep]⟩
      · rw [hp] at h
        simp only [] at h
        rw [Action.perform_attempt_bind] at h
        rcases hn : (c.numeric blocks reading.residuals recording i space).perform machine w₁ with
          ⟨stop | ⟨numericTangent, numericAmbient⟩, w₂⟩
        · rw [hn] at h
          obtain ⟨hanswer, rfl⟩ := Prod.mk.inj h
          obtain ⟨rfl, hstop⟩ := Prod.mk.inj (Except.ok.inj hanswer)
          obtain ⟨rfl, rfl⟩ := Prod.mk.inj (Option.some.inj hstop)
          exact ⟨[], _, rest, [], w, some tangent, rfl, rfl, .nil, .derivative hp hn,
            by simp [Progress.keep]⟩
        · -- the block is done, and the loop is stopped later
          rw [hn] at h
          obtain ⟨done, task, later, ms, w₃, kept, rfl, hk, hdone, hstop, rfl⟩ := ih h
          exact ⟨_ :: done, task, later, ⟨tangent, numericTangent, numericAmbient⟩ :: ms, w₃, kept,
            rfl, hk, .cons hp hn hdone, hstop, by simp [Progress.extend, Progress.keep]⟩

/-! ### Every probe with a record ends -/

/-- The loop over the blocks has no fault of its own. -/
theorem differentiate_answers (reading : Reading α)
    (todo : List (ℕ × BlockSpace σ α × List α × Tensor α)) (progress : Progress α) :
    (c.differentiate blocks reading recording todo progress).Promises (fun _ => True)
      fun _ => False := by
  induction todo generalizing progress with
  | nil => exact .pure trivial
  | cons task rest ih =>
      obtain ⟨k, space, block, jacobian⟩ := task
      unfold differentiate
      refine (Action.Promises.trivial _).attempt.bind fun projected _ => ?_
      cases projected with
      | error fault => exact .pure trivial
      | ok tangent =>
          refine (Action.Promises.trivial _).attempt.bind fun derived _ => ?_
          cases derived with
          | error fault => exact .pure trivial
          | ok numeric => exact ih _

/-- Nor has a probe at a point. -/
theorem runAt_answers (c : Checker σ α) (blocks : List (List α)) (tolerance : α)
    (recording : Bool) :
    (c.runAt blocks tolerance recording).Promises (fun _ => True) fun _ => False := by
  have hcomparison : ∀ worst : α, (logComparison blocks.length worst tolerance :
      Action σ Unit).Promises (fun _ => True) fun _ => False := by
    intro worst
    refine ⟨fun _ => trivial, fun {machine w w' fault} h => ?_⟩
    obtain ⟨after, hlog⟩ := perform_logComparison machine w blocks.length worst tolerance
    rw [hlog] at h
    cases (Prod.mk.inj h).1
  unfold runAt
  refine (Action.Promises.trivial _).attempt.bind fun found _ => ?_
  rcases found with fault | _ | reading
  · exact .pure trivial
  · exact (Action.Promises.warn _).bind fun _ _ => .pure trivial
  · refine (differentiate_answers reading _ _).bind fun done _ => ?_
    rcases done with ⟨progress, _ | ⟨k, fault⟩⟩
    · simp only []
      cases compare progress tolerance with
      | error fault => exact .pure trivial
      | ok comparisons =>
          exact (hcomparison _).bind fun _ _ => .pure trivial
    · cases fault with
      | evaluation cause => exact (Action.Promises.warn _).bind fun _ _ => .pure trivial
      | _ => exact .pure trivial

/-- A probe that is not refused goes on at the point, if there is no record to be cleared or if it
can be cleared. -/
theorem run_eq_runAt (ht : Scalar.le Scalar.zero tolerance = true)
    (hb : readBlocks parameters c.sizes = .ok blocks) (hclears : recording = true → c.Clears) :
    c.run parameters tolerance recording = c.runAt blocks tolerance recording := by
  unfold run
  simp only [ht, hb]
  cases recording with
  | false =>
      -- without a record it does not matter whether one could be cleared
      cases ((Record.blank (α := α)).reset c.evaluator.numResiduals c.sizes c.tangentSizes).1 with
      | error fault => rfl
      | ok cleared => rfl
  | true =>
      have hcleared : ((Record.blank (α := α)).reset c.evaluator.numResiduals c.sizes
          c.tangentSizes).1 = .ok () := hclears rfl
      rw [hcleared]
      rfl

/-- **A probe with a record ends.** Where it is not refused, it goes on at the point if the record
can be cleared; otherwise nothing is called and the fault is the verdict. -/
theorem exists_ending (machine : Machine) (w : World σ)
    (ht : Scalar.le Scalar.zero tolerance = true)
    (hb : readBlocks parameters c.sizes = .ok blocks) :
    ∃ ending w', (c.run parameters tolerance true).perform machine w = (.ok ending, w') ∧
      ((c.Clears ∧ (c.runAt blocks tolerance true).perform machine w = (.ok ending, w')) ∨
        ¬c.Clears ∧ ∃ fault, ((Record.blank (α := α)).reset c.evaluator.numResiduals c.sizes
          c.tangentSizes).1 = .error fault ∧ ending = .faulted fault ∧ w' = w) := by
  unfold run Clears
  simp only [ht, hb]
  cases ((Record.blank (α := α)).reset c.evaluator.numResiduals c.sizes c.tangentSizes).1 with
  | error fault => exact ⟨.faulted fault, w, rfl, .inr ⟨nofun, fault, rfl, rfl, rfl⟩⟩
  | ok _ =>
      obtain ⟨ending, w', hat, -⟩ := (c.runAt_answers blocks tolerance true).exists_ok machine w
      exact ⟨ending, w', hat, .inl ⟨rfl, hat⟩⟩

/-- A probe that answers has cleared the record and went on at the point. -/
theorem runAt_of_verdict {ending : Ending α} {verdict : Bool}
    (hrun : (c.run parameters tolerance true).perform machine w = (.ok ending, w'))
    (hv : ending.verdict tolerance = .ok verdict) :
    c.Clears ∧ ∃ blocks, readBlocks parameters c.sizes = .ok blocks ∧
      (c.runAt blocks tolerance true).perform machine w = (.ok ending, w') := by
  obtain ⟨ht, blocks, hb, hat⟩ := of_run_verdict hrun hv
  obtain ⟨ending', w₁, hrun', h⟩ := exists_ending (c := c) machine w ht hb
  obtain ⟨hsame, rfl⟩ := Prod.mk.inj (hrun.symm.trans hrun')
  obtain rfl := Except.ok.inj hsame
  rcases h with ⟨hclears, hat⟩ | ⟨-, fault, -, rfl, -⟩
  · exact ⟨hclears, blocks, hb, hat⟩
  · cases hv

/-- A probe with a record answers with the verdict and the record of its ending. -/
theorem perform_probeInto_iff {before record : Record α} {verdict : Except Fault Bool} :
    (c.probeInto parameters tolerance before).perform machine w = (.ok (verdict, record), w') ↔
      ∃ ending, (c.run parameters tolerance true).perform machine w = (.ok ending, w') ∧
        ending.verdict tolerance = verdict ∧
        ending.record c.cap c.evaluator.numResiduals c.sizes c.tangentSizes before = record := by
  unfold probeInto
  rw [Action.perform_bind_eq_ok_iff]
  constructor
  · rintro ⟨ending, w₁, hrun, h⟩
    obtain ⟨hanswer, rfl⟩ := Prod.mk.inj h
    obtain ⟨hv, hr⟩ := Prod.mk.inj (Except.ok.inj hanswer)
    exact ⟨ending, hrun, hv, hr⟩
  · rintro ⟨ending, hrun, rfl, rfl⟩
    exact ⟨ending, w', hrun, rfl⟩

end Checker

end JacobianAudit
