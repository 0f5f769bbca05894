/-
**The stages of a probe.**

A probe reads the point, projects and differentiates one block after the other, and compares. This
module says once what a probe does from stage to stage: how it gets past its arguments, how a run
over the blocks that meets no fault is a chain of answered questions, and which probes get as far as
the comparison. Everything about verdicts and records is derived from that.

Main definitions:

* `JacobianAudit.BlockMatrices` — the matrices of one block;
* `JacobianAudit.Checker.tasks` — the blocks that a probe goes through;
* `JacobianAudit.Checker.Differentiates` — all blocks are projected and differentiated without a
  fault;
* `JacobianAudit.Checker.Ends` — how a probe ends, and what was answered on the way there.

Main results:

* `JacobianAudit.Checker.differentiate_eq_none_iff` — the loop over the blocks meets no fault
  exactly when there is such a chain;
* `JacobianAudit.Checker.ends_of_runAt` — every probe at a point ends in one of these ways;
* `JacobianAudit.Checker.Ends.of_compared`, `JacobianAudit.Checker.runAt_of_differentiates` — which
  probes get to compare;
* `JacobianAudit.Checker.of_run_verdict` — a probe that answers got past its arguments.
-/

import JacobianAudit.Probe.Checker
import JacobianAudit.Proofs.Agreement
import JacobianAudit.Proofs.Reading

set_option autoImplicit false

namespace JacobianAudit

/-- The matrices of one block: the projected Jacobian, the numeric one along the tangent
coordinates and, if asked for, the numeric one along the entries. -/
structure BlockMatrices (α : Type) where
  tangent : Tensor α
  numericTangent : Tensor α
  numericAmbient : List (Tensor α)

/-- The matrices of further blocks, put behind those computed so far. -/
def Progress.extend {α : Type} (progress : Progress α) (matrices : List (BlockMatrices α)) :
    Progress α where
  tangent := progress.tangent ++ matrices.map (·.tangent)
  numericTangent := progress.numericTangent ++ matrices.map (·.numericTangent)
  numericAmbient := progress.numericAmbient ++ matrices.flatMap (·.numericAmbient)

@[simp] theorem Progress.extend_nil {α : Type} (progress : Progress α) :
    progress.extend [] = progress := by
  simp [Progress.extend]

namespace Checker

variable {σ α : Type} [Scalar α]

/-- The blocks that a probe goes through: each with its number, its space, the point and its
Jacobian. -/
def tasks (c : Checker σ α) (blocks : List (List α)) (jacobians : List (Tensor α)) :
    List (ℕ × BlockSpace σ α × List α × Tensor α) :=
  ((c.spaces.zip (blocks.zip jacobians)).zipIdx).map fun p => (p.2, p.1.1, p.1.2.1, p.1.2.2)

theorem length_tasks (c : Checker σ α) {blocks : List (List α)} {jacobians : List (Tensor α)}
    (hb : blocks.length = c.spaces.length) (hj : jacobians.length = c.spaces.length) :
    (c.tasks blocks jacobians).length = c.spaces.length := by
  simp [tasks, hb, hj]

/-- From one world to another, all blocks of a list are projected and differentiated without a
fault, and these are the matrices. -/
inductive Differentiates (c : Checker σ α) (machine : Machine) (blocks : List (List α))
    (residuals : List α) (recording : Bool) :
    List (ℕ × BlockSpace σ α × List α × Tensor α) → World σ → List (BlockMatrices α) → World σ →
      Prop
  | nil {w : World σ} : Differentiates c machine blocks residuals recording [] w [] w
  | cons {k : ℕ} {space : BlockSpace σ α} {block : List α} {jacobian : Tensor α}
      {rest : List (ℕ × BlockSpace σ α × List α × Tensor α)} {w w₁ w₂ w₃ : World σ}
      {m : BlockMatrices α} {ms : List (BlockMatrices α)} :
      (project (.array jacobian) space.manifold (.vector block)).perform machine w =
        (.ok m.tangent, w₁) →
      (c.numeric blocks residuals recording k space).perform machine w₁ =
        (.ok (m.numericTangent, m.numericAmbient), w₂) →
      Differentiates c machine blocks residuals recording rest w₂ ms w₃ →
      Differentiates c machine blocks residuals recording ((k, space, block, jacobian) :: rest) w
        (m :: ms) w₃

variable {c : Checker σ α} {machine : Machine} {blocks : List (List α)} {recording : Bool}
  {w w' : World σ} {tolerance : α}

theorem Differentiates.length_eq {residuals : List α}
    {todo : List (ℕ × BlockSpace σ α × List α × Tensor α)} {ms : List (BlockMatrices α)}
    (h : c.Differentiates machine blocks residuals recording todo w ms w') :
    ms.length = todo.length := by
  induction h with
  | nil => rfl
  | cons _ _ _ ih => simp [ih]

/-- The matrices that are found from a world are determined by it. -/
theorem Differentiates.unique {residuals : List α}
    {todo : List (ℕ × BlockSpace σ α × List α × Tensor α)} {ms ms' : List (BlockMatrices α)}
    {w'' : World σ} (h : c.Differentiates machine blocks residuals recording todo w ms w')
    (h' : c.Differentiates machine blocks residuals recording todo w ms' w'') : ms = ms' := by
  induction h generalizing ms' with
  | nil =>
      cases h'
      rfl
  | @cons _ _ _ _ _ _ w₁ w₂ _ m _ hp hn _ ih =>
      cases h' with
      | @cons _ _ _ _ _ _ v₁ v₂ _ m' _ hp' hn' hrest =>
          rw [hp] at hp'
          obtain ⟨ht, rfl⟩ : m.tangent = m'.tangent ∧ w₁ = v₁ := by simpa using hp'
          rw [hn] at hn'
          obtain ⟨⟨hnt, hna⟩, rfl⟩ : (m.numericTangent = m'.numericTangent ∧
              m.numericAmbient = m'.numericAmbient) ∧ w₂ = v₂ := by simpa using hn'
          obtain rfl : m = m' := by
            cases m
            cases m'
            congr
          rw [ih hrest]

/-- The tasks are numbered like the spaces, the blocks and the Jacobians. -/
theorem getElem?_tasks_iff {jacobians : List (Tensor α)} {k : ℕ}
    {task : ℕ × BlockSpace σ α × List α × Tensor α} :
    (c.tasks blocks jacobians)[k]? = some task ↔
      task.1 = k ∧ c.spaces[k]? = some task.2.1 ∧ blocks[k]? = some task.2.2.1 ∧
        jacobians[k]? = some task.2.2.2 := by
  obtain ⟨i, space, block, jacobian⟩ := task
  have hzip : (c.spaces.zip (blocks.zip jacobians))[k]? = some (space, block, jacobian) ↔
      c.spaces[k]? = some space ∧ blocks[k]? = some block ∧ jacobians[k]? = some jacobian := by
    rw [List.getElem?_zip_eq_some, List.getElem?_zip_eq_some]
  rw [← hzip, tasks]
  simp only [List.getElem?_map, List.getElem?_zipIdx, Nat.zero_add, Option.map_map,
    Option.map_eq_some_iff, Function.comp_apply, Prod.mk.injEq]
  constructor
  · rintro ⟨q, hq, hi, rfl, rfl, rfl⟩
    exact ⟨hi.symm, hq⟩
  · rintro ⟨hi, hq⟩
    exact ⟨_, hq, hi.symm, rfl, rfl, rfl⟩

theorem mem_tasks_iff {jacobians : List (Tensor α)} {k : ℕ} {space : BlockSpace σ α}
    {block : List α} {jacobian : Tensor α} :
    (k, space, block, jacobian) ∈ c.tasks blocks jacobians ↔
      c.spaces[k]? = some space ∧ blocks[k]? = some block ∧ jacobians[k]? = some jacobian := by
  rw [List.mem_iff_getElem?]
  constructor
  · rintro ⟨i, h⟩
    obtain ⟨rfl, h⟩ := getElem?_tasks_iff.1 h
    exact h
  · exact fun h => ⟨k, getElem?_tasks_iff.2 ⟨rfl, h⟩⟩

/-- Where there are as many blocks and Jacobians, there is a task for each space. -/
theorem exists_task {jacobians : List (Tensor α)} {k : ℕ} {space : BlockSpace σ α}
    (hb : blocks.length = c.spaces.length) (hj : jacobians.length = c.spaces.length)
    (h : c.spaces[k]? = some space) :
    ∃ block jacobian, (k, space, block, jacobian) ∈ c.tasks blocks jacobians := by
  obtain ⟨hk, -⟩ := List.getElem?_eq_some_iff.1 h
  exact ⟨_, _, mem_tasks_iff.2 ⟨h, List.getElem?_eq_getElem (hb ▸ hk),
    List.getElem?_eq_getElem (hj ▸ hk)⟩⟩

/-- Where the declared sizes are counts, the space of a block is as large as the block. -/
theorem size_eq_count {sizes : List ℕ} (h : c.sizes = sizes.map .count)
    (hb : blocks.map List.length = sizes) {k : ℕ} {space : BlockSpace σ α} {block : List α}
    (hs : c.spaces[k]? = some space) (hk : blocks[k]? = some block) :
    space.size = .count block.length ∧ block.length ∈ sizes := by
  have hsize : sizes[k]? = some block.length := by
    rw [← hb, List.getElem?_map, hk, Option.map_some]
  have hsizes := congrArg (fun l => l[k]?) h
  exact ⟨by simpa [Checker.sizes, hs, hsize] using hsizes, List.mem_of_getElem? hsize⟩

/-! ### The loop over the blocks -/

/-- **The loop meets no fault exactly when every question is answered.** -/
theorem differentiate_eq_none_iff {reading : Reading α}
    {todo : List (ℕ × BlockSpace σ α × List α × Tensor α)} {before after : Progress α} :
    (c.differentiate blocks reading recording todo before).perform machine w =
        (.ok (after, none), w') ↔
      ∃ ms, c.Differentiates machine blocks reading.residuals recording todo w ms w' ∧
        after = before.extend ms := by
  induction todo generalizing w before with
  | nil =>
      simp only [differentiate, Action.perform_pure, Prod.mk.injEq, Except.ok.injEq, and_true]
      constructor
      · rintro ⟨rfl, rfl⟩
        exact ⟨[], .nil, before.extend_nil.symm⟩
      · rintro ⟨ms, h, rfl⟩
        cases h
        exact ⟨before.extend_nil.symm, rfl⟩
  | cons task rest ih =>
      obtain ⟨k, space, block, jacobian⟩ := task
      rw [differentiate, Action.perform_attempt_bind]
      rcases hp : (project (.array jacobian) space.manifold (.vector block)).perform machine w with
        ⟨fault | tangent, w₁⟩
      · -- a projection with a fault ends the loop
        simp only [Action.perform_pure, Prod.mk.injEq, Except.ok.injEq, reduceCtorEq, and_false,
          false_and, false_iff, not_exists]
        rintro ms ⟨h, -⟩
        cases h with
        | cons hp' _ _ => rw [hp] at hp'; cases hp'
      · simp only []
        rw [Action.perform_attempt_bind]
        rcases hn : (c.numeric blocks reading.residuals recording k space).perform machine w₁ with
          ⟨fault | ⟨numericTangent, numericAmbient⟩, w₂⟩
        · simp only [Action.perform_pure, Prod.mk.injEq, Except.ok.injEq, reduceCtorEq, and_false,
            false_and, false_iff, not_exists]
          rintro ms ⟨h, -⟩
          cases h with
          | cons hp' hn' _ =>
              rw [hp] at hp'
              cases hp'
              rw [hn] at hn'
              cases hn'
        · simp only []
          rw [ih]
          constructor
          · rintro ⟨ms, h, rfl⟩
            refine ⟨⟨tangent, numericTangent, numericAmbient⟩ :: ms, .cons hp hn h, ?_⟩
            simp [Progress.extend]
          · rintro ⟨ms, h, rfl⟩
            cases h with
            | @cons _ _ _ _ _ _ _ _ _ m ms hp' hn' h =>
                rw [hp] at hp'
                obtain ⟨rfl, rfl⟩ : tangent = m.tangent ∧ w₁ = _ := by simpa using hp'
                rw [hn] at hn'
                obtain ⟨⟨rfl, rfl⟩, rfl⟩ :
                    (numericTangent = m.numericTangent ∧ numericAmbient = m.numericAmbient) ∧
                      w₂ = _ := by simpa using hn'
                exact ⟨ms, h, by simp [Progress.extend]⟩

/-! ### Getting past the arguments -/

/-- What a checker that was accepted is made of. -/
theorem of_make {evaluator : Evaluator σ α} {manifolds : Option (List (Option (Manifold σ α)))}
    {options : DiffOptions α} {cap : Setting}
    (h : make evaluator manifolds options cap = .ok c) :
    c.evaluator = evaluator ∧ c.options = options ∧
      (∃ sizes, readSizes evaluator.blockSizes = .ok sizes ∧ c.sizes = sizes.map .whole) ∧
      ∀ space ∈ c.spaces, ∀ m ∈ space.manifold,
        ∃ given, manifolds = some given ∧ some m ∈ given := by
  obtain ⟨sizes, hs, h⟩ := Except.bind_eq_ok_iff.1 h
  obtain ⟨spaces, hf, h⟩ := Except.bind_eq_ok_iff.1 h
  obtain ⟨n, _, h⟩ := Except.bind_eq_ok_iff.1 h
  obtain rfl := Except.ok.inj h
  obtain ⟨hsizes, hmanifolds⟩ := BlockSpace.of_fitAll hf
  exact ⟨rfl, rfl, ⟨sizes, hs, hsizes⟩, hmanifolds⟩

/-- Each block of a checker that was accepted lives on the manifold that was given for it. -/
theorem manifold_of_make {evaluator : Evaluator σ α}
    {manifolds : Option (List (Option (Manifold σ α)))} {options : DiffOptions α} {cap : Setting}
    (h : make evaluator manifolds options cap = .ok c) {k : ℕ} {space : BlockSpace σ α}
    (hk : c.spaces[k]? = some space) : space.manifold = BlockSpace.givenAt manifolds k := by
  obtain ⟨sizes, _, h⟩ := Except.bind_eq_ok_iff.1 h
  obtain ⟨spaces, hf, h⟩ := Except.bind_eq_ok_iff.1 h
  obtain ⟨n, _, h⟩ := Except.bind_eq_ok_iff.1 h
  obtain rfl := Except.ok.inj h
  obtain ⟨hl, hspace⟩ := BlockSpace.getElem_fitAll hf
  obtain ⟨hlt, rfl⟩ := List.getElem?_eq_some_iff.1 hk
  exact (hspace k hlt (hl ▸ hlt)).2

/-- A probe that answers was not refused for its tolerance or its parameters and could clear the
record; from there on it calls the evaluator. -/
theorem of_run_verdict {parameters : List (Supplied α)} {ending : Ending α} {verdict : Bool}
    (hrun : (c.run parameters tolerance recording).perform machine w = (.ok ending, w'))
    (hv : ending.verdict tolerance = .ok verdict) :
    Scalar.le Scalar.zero tolerance = true ∧
      ∃ blocks, readBlocks parameters c.sizes = .ok blocks ∧
        (c.runAt blocks tolerance recording).perform machine w = (.ok ending, w') := by
  unfold run at hrun
  cases ht : Scalar.le Scalar.zero tolerance with
  | false =>
      simp only [ht, Bool.not_false, if_true, Action.perform_pure, Prod.mk.injEq,
        Except.ok.injEq] at hrun
      rw [← hrun.1] at hv
      cases hv
  | true =>
      refine ⟨rfl, ?_⟩
      simp only [ht, Bool.not_true, Bool.false_eq_true, if_false] at hrun
      cases hb : readBlocks parameters c.sizes with
      | error fault =>
          simp only [hb, Action.perform_pure, Prod.mk.injEq, Except.ok.injEq] at hrun
          rw [← hrun.1] at hv
          cases hv
      | ok blocks =>
          refine ⟨blocks, rfl, ?_⟩
          simp only [hb] at hrun
          split at hrun
          · -- the record could not be cleared
            simp only [Action.perform_pure, Prod.mk.injEq, Except.ok.injEq] at hrun
            rw [← hrun.1] at hv
            cases hv
          · exact hrun

/-- The comparison's messages are no obstacle. -/
theorem perform_logComparison (machine : Machine) (w : World σ) (n : ℕ) (worst tolerance : α) :
    ∃ after, (logComparison n worst tolerance : Action σ Unit).perform machine w =
      (.ok (), after) := by
  unfold logComparison
  rw [Action.perform_bind_of_ok (Action.perform_log machine w _ _)]
  cases Scalar.le worst tolerance with
  | false => exact ⟨_, rfl⟩
  | true => exact ⟨_, rfl⟩

/-- How a probe at a point ends, and what was answered on the way there. -/
inductive Ends (c : Checker σ α) (machine : Machine) (blocks : List (List α)) (tolerance : α)
    (recording : Bool) (w : World σ) : Ending α → Prop
  | faulted {fault : Fault} {w₁ : World σ} :
      (c.read blocks).perform machine w = (.error fault, w₁) →
      Ends c machine blocks tolerance recording w (.faulted fault)
  | pointFailed {w₁ : World σ} :
      (c.read blocks).perform machine w = (.ok none, w₁) →
      Ends c machine blocks tolerance recording w .pointFailed
  | interrupted {reading : Reading α} {progress : Progress α} {k : ℕ} {fault : Fault}
      {w₁ w₂ : World σ} :
      (c.read blocks).perform machine w = (.ok (some reading), w₁) →
      (c.differentiate blocks reading recording (c.tasks blocks reading.jacobians) {}).perform
        machine w₁ = (.ok (progress, some (k, fault)), w₂) →
      Ends c machine blocks tolerance recording w (.interrupted reading progress k fault)
  | incomparable {reading : Reading α} {ms : List (BlockMatrices α)} {fault : Fault}
      {w₁ w₂ : World σ} :
      (c.read blocks).perform machine w = (.ok (some reading), w₁) →
      c.Differentiates machine blocks reading.residuals recording
        (c.tasks blocks reading.jacobians) w₁ ms w₂ →
      compare (Progress.extend {} ms) tolerance = .error fault →
      Ends c machine blocks tolerance recording w
        (.interrupted reading (Progress.extend {} ms) blocks.length fault)
  | compared {reading : Reading α} {ms : List (BlockMatrices α)}
      {comparisons : List (BlockComparison α)} {w₁ w₂ : World σ} :
      (c.read blocks).perform machine w = (.ok (some reading), w₁) →
      c.Differentiates machine blocks reading.residuals recording
        (c.tasks blocks reading.jacobians) w₁ ms w₂ →
      compare (Progress.extend {} ms) tolerance = .ok comparisons →
      Ends c machine blocks tolerance recording w
        (.compared reading (Progress.extend {} ms) comparisons)

/-- **A probe at a point ends in one of these ways.** -/
theorem ends_of_runAt {ending : Ending α}
    (h : (c.runAt blocks tolerance recording).perform machine w = (.ok ending, w')) :
    c.Ends machine blocks tolerance recording w ending := by
  unfold runAt at h
  rw [Action.perform_attempt_bind] at h
  rcases hread : (c.read blocks).perform machine w with ⟨fault | _ | reading, w₁⟩ <;>
    simp only [hread] at h
  · rw [Action.perform_pure, Prod.mk.injEq, Except.ok.injEq] at h
    exact h.1 ▸ .faulted hread
  · -- no value at the point
    obtain ⟨_, _, _, h⟩ := Action.perform_bind_eq_ok_iff.1 h
    rw [Action.perform_pure, Prod.mk.injEq, Except.ok.injEq] at h
    exact h.1 ▸ .pointFailed hread
  · obtain ⟨⟨progress, stopped⟩, w₂, hd, h⟩ := Action.perform_bind_eq_ok_iff.1 h
    cases stopped with
    | some stop =>
        obtain ⟨k, fault⟩ := stop
        -- the warning is the only difference that the fault makes
        have hending : .interrupted reading progress k fault = ending := by
          cases fault with
          | evaluation cause =>
              obtain ⟨_, _, _, h⟩ := Action.perform_bind_eq_ok_iff.1 h
              exact Except.ok.inj (Prod.mk.inj h).1
          | _ => exact Except.ok.inj (Prod.mk.inj h).1
        exact hending ▸ .interrupted hread hd
    | none =>
        obtain ⟨ms, hms, rfl⟩ := differentiate_eq_none_iff.1 hd
        cases hc : compare (Progress.extend {} ms) tolerance with
        | error fault =>
            simp only [hc] at h
            rw [Action.perform_pure, Prod.mk.injEq, Except.ok.injEq] at h
            exact h.1 ▸ .incomparable hread hms hc
        | ok comparisons =>
            simp only [hc] at h
            obtain ⟨_, _, _, h⟩ := Action.perform_bind_eq_ok_iff.1 h
            rw [Action.perform_pure, Prod.mk.injEq, Except.ok.injEq] at h
            exact h.1 ▸ .compared hread hms hc

/-- **Which probes get to compare**: those that find a value at the point, project and differentiate
every block without a fault, and can hold the matrices against each other. -/
theorem Ends.of_compared {reading : Reading α} {progress : Progress α}
    {comparisons : List (BlockComparison α)}
    (h : c.Ends machine blocks tolerance recording w (.compared reading progress comparisons)) :
    ∃ w₁ ms w₂, (c.read blocks).perform machine w = (.ok (some reading), w₁) ∧
      c.Differentiates machine blocks reading.residuals recording
        (c.tasks blocks reading.jacobians) w₁ ms w₂ ∧
      progress = Progress.extend {} ms ∧ compare progress tolerance = .ok comparisons := by
  cases h with
  | compared hread hms hc => exact ⟨_, _, _, hread, hms, rfl, hc⟩

/-- The other direction: a probe that finds a value and meets no fault gets to compare. -/
theorem runAt_of_differentiates {reading : Reading α} {ms : List (BlockMatrices α)}
    {comparisons : List (BlockComparison α)} {w₁ w₂ : World σ}
    (hread : (c.read blocks).perform machine w = (.ok (some reading), w₁))
    (hms : c.Differentiates machine blocks reading.residuals recording
      (c.tasks blocks reading.jacobians) w₁ ms w₂)
    (hc : compare (Progress.extend {} ms) tolerance = .ok comparisons) :
    ∃ after, (c.runAt blocks tolerance recording).perform machine w =
      (.ok (.compared reading (Progress.extend {} ms) comparisons), after) := by
  have hd : (c.differentiate blocks reading recording (c.tasks blocks reading.jacobians) {}).perform
      machine w₁ = (.ok (Progress.extend {} ms, none), w₂) :=
    differentiate_eq_none_iff.2 ⟨ms, hms, rfl⟩
  obtain ⟨after, hlog⟩ := perform_logComparison machine w₂ blocks.length
    (worstOfBlocks comparisons) tolerance
  refine ⟨after, ?_⟩
  unfold runAt
  rw [Action.perform_attempt_bind, hread]
  refine (Action.perform_bind_of_ok hd).trans ?_
  simp only [hc]
  rw [Action.perform_bind_of_ok hlog, Action.perform_pure]

end Checker

end JacobianAudit
