/-
**What a record remembers.**

A record can be handed to one probe after the other. A probe that is refused leaves it alone and
calls nobody. Any other probe clears it first, and if there are arrays of all declared shapes then
nothing is left of earlier probes, however the probe ends. A record is cleared field by field,
though: where there is no array of a declared shape, the fields behind it are those of an earlier
probe.

Main definitions:

* `JacobianAudit.Call` — a probe and what it is called with;
* `JacobianAudit.Call.Refused` — the call is refused for its tolerance or its parameters;
* `JacobianAudit.replay` — calls one after the other with one record;
* `JacobianAudit.Record.Clearing` — what clearing can do to a record.

Main results:

* `JacobianAudit.Call.record_of_last_call` — **what a call makes of a record with a history**;
* `JacobianAudit.old_record_survives` — the history can show.
-/

import Mathlib.Algebra.Group.Int.Defs
import JacobianAudit.Proofs.Memory
import JacobianAudit.Proofs.Thresholds

set_option autoImplicit false

namespace JacobianAudit

variable {σ α : Type} [Scalar α]

/-! ### What clearing can do -/

/-- A record is cleared, or it is cleared up to the first shape of which there is no array. -/
inductive Record.Clearing (r : Record α) (numResiduals : Setting)
    (sizes tangentSizes : List Setting) : Except Fault Unit → Record α → Prop
  | residuals {fault : Fault} :
      (Tensor.zeros numResiduals.extents : Except Fault (Tensor α)) = .error fault →
      Clearing r numResiduals sizes tangentSizes (.error fault) { r with success := false }
  | ambient {fault : Fault} {residuals : Tensor α} :
      Tensor.zeros numResiduals.extents = .ok residuals →
      (zeroMatrices numResiduals sizes : Except Fault (List (Tensor α))) = .error fault →
      Clearing r numResiduals sizes tangentSizes (.error fault)
        { r with success := false, residuals }
  | tangent {fault : Fault} {residuals : Tensor α} {ambient : List (Tensor α)} :
      Tensor.zeros numResiduals.extents = .ok residuals →
      zeroMatrices numResiduals sizes = .ok ambient →
      (zeroMatrices numResiduals tangentSizes : Except Fault (List (Tensor α))) = .error fault →
      Clearing r numResiduals sizes tangentSizes (.error fault)
        { r with success := false, residuals, ambient, numericAmbient := ambient }
  | cleared {residuals : Tensor α} {ambient tangent : List (Tensor α)} :
      Tensor.zeros numResiduals.extents = .ok residuals →
      zeroMatrices numResiduals sizes = .ok ambient →
      zeroMatrices numResiduals tangentSizes = .ok tangent →
      Clearing r numResiduals sizes tangentSizes (.ok ())
        ⟨false, residuals, ambient, ambient, tangent, tangent, Scalar.zero, ""⟩

theorem Record.clearing_reset (r : Record α) (numResiduals : Setting)
    (sizes tangentSizes : List Setting) :
    r.Clearing numResiduals sizes tangentSizes (r.reset numResiduals sizes tangentSizes).1
      (r.reset numResiduals sizes tangentSizes).2 := by
  unfold reset
  cases hr : (Tensor.zeros numResiduals.extents : Except Fault (Tensor α)) with
  | error fault => exact .residuals hr
  | ok residuals =>
      cases ha : (zeroMatrices numResiduals sizes : Except Fault (List (Tensor α))) with
      | error fault => exact .ambient hr ha
      | ok ambient =>
          cases ht : (zeroMatrices numResiduals tangentSizes : Except Fault (List (Tensor α))) with
          | error fault => exact .tangent hr ha ht
          | ok tangent => exact .cleared hr ha ht

/-! ### Calls -/

/-- A probe and what it is called with. -/
structure Call (σ α : Type) [Scalar α] where
  checker : Checker σ α
  parameters : List (Supplied α)
  tolerance : α

namespace Call

/-- The call with a record. -/
def into (call : Call σ α) (before : Record α) : Action σ (Except Fault Bool × Record α) :=
  call.checker.probeInto call.parameters call.tolerance before

/-- The tolerance is negative, or the parameters do not have the declared sizes. -/
inductive Refused (call : Call σ α) : Fault → Prop
  | tolerance : Scalar.le Scalar.zero call.tolerance = false →
      Refused call (.argument (.negativePrecision (Scalar.text call.tolerance)))
  | parameters {fault : Fault} : Scalar.le Scalar.zero call.tolerance = true →
      readBlocks call.parameters call.checker.sizes = .error fault → Refused call fault

/-- What clearing a record for the call can do to it. -/
def Clearing (call : Call σ α) (before : Record α) : Except Fault Unit → Record α → Prop :=
  before.Clearing call.checker.evaluator.numResiduals call.checker.sizes
    call.checker.tangentSizes

variable {call : Call σ α}

/-- A call that is not refused has blocks of the declared sizes. -/
theorem readBlocks_of_not_refused (h : ∀ fault, ¬call.Refused fault) :
    Scalar.le Scalar.zero call.tolerance = true ∧
      ∃ blocks, readBlocks call.parameters call.checker.sizes = .ok blocks := by
  cases ht : Scalar.le Scalar.zero call.tolerance with
  | false => exact absurd (.tolerance ht) (h _)
  | true =>
      cases hb : readBlocks call.parameters call.checker.sizes with
      | error fault => exact absurd (.parameters ht hb) (h fault)
      | ok blocks => exact ⟨rfl, blocks, rfl⟩

/-- A call that is refused leaves the record as it was, and nobody is called. -/
theorem into_of_refused {fault : Fault} (h : call.Refused fault) (before : Record α) :
    call.into before = pure (.error fault, before) := by
  unfold into Checker.probeInto Checker.run
  cases h with
  | tolerance ht => simp [ht, Ending.verdict, Ending.record]
  | parameters ht hb => simp [ht, hb, Ending.verdict, Ending.record]

/-- Where a record cannot be cleared, the fault is the verdict, and nobody is called. -/
theorem into_of_not_clears (h : ∀ fault, ¬call.Refused fault) (hclears : ¬call.checker.Clears) :
    ∃ fault, ∀ before, ∃ record, call.Clearing before (.error fault) record ∧
      call.into before = pure (.error fault, record) := by
  obtain ⟨ht, blocks, hb⟩ := readBlocks_of_not_refused h
  cases hblank : ((Record.blank (α := α)).reset call.checker.evaluator.numResiduals
      call.checker.sizes call.checker.tangentSizes).1 with
  | ok _ => exact absurd hblank hclears
  | error fault =>
      refine ⟨fault, fun before => ?_⟩
      have hclearing := before.clearing_reset call.checker.evaluator.numResiduals
        call.checker.sizes call.checker.tangentSizes
      rw [Record.fst_reset before Record.blank, hblank] at hclearing
      refine ⟨_, hclearing, ?_⟩
      unfold into Checker.probeInto Checker.run
      simp [ht, hb, hblank, Ending.verdict, Ending.record]

/-- How a probe at a point ends, a record that can be cleared forgets what it held. -/
theorem record_of_ends (hclears : call.checker.Clears) {machine : Machine}
    {blocks : List (List α)} {w : World σ} {ending : Ending α}
    (h : call.checker.Ends machine blocks call.tolerance true w ending)
    (before before' : Record α) :
    ending.record call.checker.cap call.checker.evaluator.numResiduals call.checker.sizes
        call.checker.tangentSizes before =
      ending.record call.checker.cap call.checker.evaluator.numResiduals call.checker.sizes
        call.checker.tangentSizes before' := by
  have hreset := hclears.snd_reset before before'
  cases h <;> simp only [Ending.record, hreset]

/-- Where a record can be cleared, neither the answer nor the record depends on what the record
held, and neither does who is called. -/
theorem into_of_clears (h : ∀ fault, ¬call.Refused fault) (hclears : call.checker.Clears)
    (before before' : Record α) : call.into before = call.into before' := by
  obtain ⟨ht, blocks, hb⟩ := readBlocks_of_not_refused h
  refine Action.ext_perform fun machine w => ?_
  obtain ⟨ending, w', hrun, hend⟩ := Checker.exists_ending machine w ht hb
  rcases hend with ⟨-, hat⟩ | ⟨hnot, -⟩
  · unfold into Checker.probeInto
    rw [Action.perform_bind_of_ok hrun, Action.perform_bind_of_ok hrun,
      record_of_ends hclears (Checker.ends_of_runAt hat) before before']
  · exact absurd hclears hnot

/-- A record is cleared if the declared sizes are counts and there is room for the arrays. -/
theorem clears_of_held {rows : ℕ} (hrows : call.checker.evaluator.numResiduals = .count rows)
    (hresiduals : Shape.Held [rows])
    (hs : ∀ s ∈ call.checker.sizes ++ call.checker.tangentSizes,
      ∃ n : ℕ, s = .count n ∧ Shape.Held [rows, n]) : call.checker.Clears := by
  unfold Checker.Clears
  rw [hrows]
  exact Record.reset_eq_ok _ hresiduals (fun s h => hs s (List.mem_append_left _ h))
    fun s h => hs s (List.mem_append_right _ h)

end Call

/-! ### Histories -/

/-- Calls one after the other with one record. Faults reach the caller, who goes on. -/
def replay : List (Call σ α) → Record α → Action σ (Record α)
  | [], record => pure record
  | call :: rest, record => do
    let answer ← call.into record
    replay rest answer.2

/-- A call answers, if only with a fault as its verdict. -/
theorem Call.exists_into (call : Call σ α) (before : Record α) (machine : Machine) (w : World σ) :
    ∃ verdict record w',
      (call.into before).perform machine w = (.ok (verdict, record), w') := by
  by_cases h : ∃ fault, call.Refused fault
  · obtain ⟨fault, hfault⟩ := h
    exact ⟨_, _, w, by rw [into_of_refused hfault, Action.perform_pure]⟩
  · obtain ⟨ht, blocks, hb⟩ := readBlocks_of_not_refused (not_exists.1 h)
    obtain ⟨ending, w', hrun, -⟩ := Checker.exists_ending machine w ht hb
    exact ⟨_, _, w', Checker.perform_probeInto_iff.2 ⟨ending, hrun, rfl, rfl⟩⟩

/-- Whatever its calls come to, a history leaves a record behind. -/
theorem exists_replay (history : List (Call σ α)) (first : Record α) (machine : Machine)
    (w : World σ) :
    ∃ left w', (replay history first).perform machine w = (.ok left, w') := by
  induction history generalizing first w with
  | nil => exact ⟨first, w, rfl⟩
  | cons call rest ih =>
      obtain ⟨verdict, record, w₁, hcall⟩ := call.exists_into first machine w
      obtain ⟨left, w', hrest⟩ := ih record w₁
      refine ⟨left, w', ?_⟩
      rw [replay, Action.perform_bind_of_ok hcall]
      exact hrest

/-- **What a call makes of a record with a history.** If the call is refused, the record is as it
was and nobody was called. Otherwise the call does the same as with a blank record, provided there
are arrays of all declared shapes. Where one is missing, the fault is the same as with a blank
record and nobody is called, but the record is cleared only up to there. -/
theorem Call.record_of_last_call (history : List (Call σ α)) (call : Call σ α) (first : Record α)
    (machine : Machine) (w : World σ) :
    ∃ left w₁, (replay history first).perform machine w = (.ok left, w₁) ∧
      (∀ fault, call.Refused fault → call.into left = pure (.error fault, left)) ∧
      ((∀ fault, ¬call.Refused fault) → call.checker.Clears →
        call.into left = call.into Record.blank) ∧
      ((∀ fault, ¬call.Refused fault) → ¬call.checker.Clears → ∃ fault record fresh,
        call.into left = pure (.error fault, record) ∧
        call.into Record.blank = pure (.error fault, fresh) ∧
        call.Clearing left (.error fault) record ∧
        call.Clearing Record.blank (.error fault) fresh) := by
  obtain ⟨left, w₁, hleft⟩ := exists_replay history first machine w
  refine ⟨left, w₁, hleft, fun fault hfault => into_of_refused hfault left,
    fun h hclears => into_of_clears h hclears left Record.blank, fun h hclears => ?_⟩
  obtain ⟨fault, hinto⟩ := into_of_not_clears h hclears
  obtain ⟨record, hrecord, hleft⟩ := hinto left
  obtain ⟨fresh, hfresh, hblank⟩ := hinto Record.blank
  exact ⟨fault, record, fresh, hleft, hblank, hrecord, hfresh⟩

/-! ### An evaluator that declares too much -/

/-- The call that checks the slanted evaluator. -/
def slantedCall : Call Unit Float := ⟨slantedChecker, slantedPoint, 1e-9⟩

/-- A residual function that declares more residuals than can be addressed. -/
def vast : Functions Unit Float where
  function _ := pure (.vector [1.0])
  jacobian := some fun _ => pure (some [.array (.matrix 1 1 fun _ _ => 0.0)])
  blockSizes := [1]
  numResiduals := 2 ^ 60

/-- The call that checks it. -/
def vastCall : Call Unit Float where
  checker := ⟨vast.toEvaluator, [.plain (.count 1)], DiffOptions.standard, defaultCap⟩
  parameters := [.vector [2.0]]
  tolerance := 1e-6

theorem vastCall_not_refused (fault : Fault) : ¬vastCall.Refused fault := by
  intro h
  cases h with
  | tolerance ht => exact absurd ht (by decide +kernel)
  | parameters _ hb => cases hb

theorem vastCall_not_clears : ¬vastCall.checker.Clears := by
  unfold Checker.Clears
  decide +kernel

theorem slantedCall_not_refused (fault : Fault) : ¬slantedCall.Refused fault := by
  intro h
  cases h with
  | tolerance ht => exact absurd ht (by decide +kernel)
  | parameters _ hb => cases hb

theorem slantedCall_clears : slantedCall.checker.Clears := by
  have hsizes : slantedCall.checker.sizes ++ slantedCall.checker.tangentSizes =
      [.count 2, .count 1, .count 1, .count 1] := rfl
  refine Call.clears_of_held rfl (by decide : Shape.Held [1]) fun s hs => ?_
  obtain rfl | rfl : s = .count 2 ∨ s = .count 1 := by simpa [hsizes] using hs
  · exact ⟨2, rfl, by decide⟩
  · exact ⟨1, rfl, by decide⟩

theorem record_of_last_call_vast :
    ∃ left w₁ fault record, (replay [slantedCall] Record.blank).perform plainMachine
        ⟨(), [], []⟩ = (.ok left, w₁) ∧
      slantedCall.into left = slantedCall.into Record.blank ∧
      vastCall.into left = pure (.error fault, record) ∧
      vastCall.Clearing left (.error fault) record := by
  obtain ⟨left, w₁, hleft, -, hslanted, -⟩ := Call.record_of_last_call [slantedCall] slantedCall
    Record.blank plainMachine ⟨(), [], []⟩
  obtain ⟨left', w₁', hleft', -, -, hvast⟩ := Call.record_of_last_call [slantedCall] vastCall
    Record.blank plainMachine ⟨(), [], []⟩
  obtain ⟨hsame, rfl⟩ := Prod.mk.inj (hleft.symm.trans hleft')
  obtain rfl := Except.ok.inj hsame
  obtain ⟨fault, record, -, hinto, -, hrecord, -⟩ :=
    hvast vastCall_not_refused vastCall_not_clears
  exact ⟨left, w₁, fault, record, hleft, hslanted slantedCall_not_refused slantedCall_clears,
    hinto, hrecord⟩

/-- **An old record survives**: where there is no array of a declared shape, what is recorded for a
call that was not refused is that of an earlier one. -/
theorem old_record_survives :
    ¬∀ (history : List (Call Unit Float)) (call : Call Unit Float) (rows : ℕ)
      (machine : Machine) (w w₁ : World Unit) (left : Record Float),
      call.checker.evaluator.numResiduals = .count rows → (∀ fault, ¬call.Refused fault) →
      (replay history Record.blank).perform machine w = (.ok left, w₁) →
      ((call.into left).perform machine w₁).1 =
        ((call.into Record.blank).perform machine w₁).1 := by
  intro h
  have hshapes : ((replay [slantedCall] Record.blank >>= vastCall.into).perform plainMachine
      ⟨(), [], []⟩).1.map (fun p => p.2.residuals.shape) = .ok [1] := by decide +kernel
  have hfresh : ((replay [slantedCall] Record.blank >>= fun _ =>
      vastCall.into Record.blank).perform plainMachine ⟨(), [], []⟩).1.map
        (fun p => p.2.residuals.shape) = .ok [0] := by decide +kernel
  obtain ⟨left, w₁, hleft⟩ := exists_replay [slantedCall] Record.blank plainMachine ⟨(), [], []⟩
  have hsame := h [slantedCall] vastCall (2 ^ 60) plainMachine ⟨(), [], []⟩ w₁ left rfl
    vastCall_not_refused hleft
  rw [Action.perform_bind_of_ok hleft] at hshapes hfresh
  rw [hsame, hfresh] at hshapes
  cases hshapes

end JacobianAudit
