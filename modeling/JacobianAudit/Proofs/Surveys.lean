/-
**What a probe finds before it compares.**

The tolerance of a probe is looked at twice: at the very beginning, where a negative one is refused,
and at the end, where the matrices are compared. What lies between is a survey of the blocks that
does not know the tolerance. How a probe ends follows from its survey, so two probes end alike if
their surveys do. This module separates the survey from the rest of a probe and couples the surveys
of two checkers.

Main definitions:

* `JacobianAudit.Survey`, `JacobianAudit.Survey.ending` — what is found, and how the probe then
  ends;
* `JacobianAudit.Checker.survey` — the part of a probe that calls the evaluator, without its
  messages;
* `JacobianAudit.Checker.accept` — what is checked before;
* `JacobianAudit.Survey.Related` — surveys whose readings and projections are related;
* `JacobianAudit.Checker.SameNumerics` — two checkers whose numeric Jacobians are coupled.

Main results:

* `JacobianAudit.Checker.fst_perform_run` — **a probe ends as its survey says**;
* `JacobianAudit.Checker.survey_inherits` — what a survey inherits from the functions it calls;
* `JacobianAudit.Checker.survey_coupled` — **surveys are coupled** if the readings and the
  projections are.
-/

import JacobianAudit.Proofs.Couplings
import JacobianAudit.Proofs.Endings

set_option autoImplicit false

namespace JacobianAudit

variable {σ α : Type}

/-- What a probe has found when it gets to compare, or what kept it from getting there. -/
inductive Survey (α : Type) where
  | faulted (fault : Fault)
  | pointFailed
  | interrupted (reading : Reading α) (progress : Progress α) (block : ℕ) (fault : Fault)
  | complete (reading : Reading α) (progress : Progress α)

variable [Scalar α]

/-- How the probe ends at a number of blocks. -/
def Survey.ending (tolerance : α) (blocks : ℕ) : Survey α → Ending α
  | faulted fault => .faulted fault
  | pointFailed => .pointFailed
  | interrupted reading progress k fault => .interrupted reading progress k fault
  | complete reading progress =>
    match Checker.compare progress tolerance with
    | .error fault => .interrupted reading progress blocks fault
    | .ok comparisons => .compared reading progress comparisons

namespace Checker

variable {c c' : Checker σ α} {machine : Machine} {blocks : List (List α)} {recording : Bool}
  {w : World σ} {tolerance : α} {parameters : List (Supplied α)}

/-- Reads the point, and projects and differentiates the blocks. -/
def survey (c : Checker σ α) (blocks : List (List α)) (recording : Bool) :
    Action σ (Survey α) := do
  match ← (c.read blocks).attempt with
  | .error fault => return .faulted fault
  | .ok none => return .pointFailed
  | .ok (some reading) =>
    match ← c.differentiate blocks reading recording (c.tasks blocks reading.jacobians) {} with
    | (progress, some (k, fault)) => return .interrupted reading progress k fault
    | (progress, none) => return .complete reading progress

/-- The blocks at which a probe with an accepted tolerance surveys, or how it ends without. -/
def accept (c : Checker σ α) (parameters : List (Supplied α)) (recording : Bool) :
    Except (Ending α) (List (List α)) :=
  match readBlocks parameters c.sizes with
  | .error fault => .error (.refused fault)
  | .ok blocks =>
    match ((Record.blank (α := α)).reset c.evaluator.numResiduals c.sizes c.tangentSizes).1,
      recording with
    | .error fault, true => .error (.faulted fault)
    | _, _ => .ok blocks

/-! ### The ending -/

/-- A probe at a point ends as its survey says: its messages are no obstacle. -/
theorem fst_perform_runAt (c : Checker σ α) (machine : Machine) (w : World σ)
    (blocks : List (List α)) (tolerance : α) (recording : Bool) :
    ((c.runAt blocks tolerance recording).perform machine w).1 =
      ((c.survey blocks recording).perform machine w).1.map
        (Survey.ending tolerance blocks.length) := by
  unfold runAt survey
  rw [Action.perform_attempt_bind, Action.perform_attempt_bind]
  rcases (c.read blocks).perform machine w with ⟨fault | _ | reading, w₁⟩
  · rfl
  · rfl
  · have hanswers : (c.differentiate blocks reading recording (c.tasks blocks reading.jacobians)
        {}).Promises (fun _ => True) fun _ => False := differentiate_answers reading _ {}
    obtain ⟨⟨progress, stopped⟩, w₂, hd, -⟩ := hanswers.exists_ok machine w₁
    refine (congrArg Prod.fst (Action.perform_bind_of_ok hd)).trans
      (Eq.trans ?_ (congrArg (fun q => q.1.map (Survey.ending tolerance blocks.length))
        (Action.perform_bind_of_ok hd)).symm)
    rcases stopped with _ | ⟨k, fault⟩
    · simp only [Action.perform_pure, Except.map, Survey.ending]
      cases compare progress tolerance with
      | error fault => rfl
      | ok comparisons =>
          obtain ⟨after, hlog⟩ := perform_logComparison machine w₂ blocks.length
            (worstOfBlocks comparisons) tolerance
          exact congrArg Prod.fst (Action.perform_bind_of_ok hlog)
    · cases fault <;> rfl

/-- A probe with an accepted tolerance goes on at the point, if it gets there. -/
theorem run_eq_accept (c : Checker σ α) (parameters : List (Supplied α)) (recording : Bool)
    (ht : Scalar.le Scalar.zero tolerance = true) :
    c.run parameters tolerance recording =
      match c.accept parameters recording with
      | .error ending => pure ending
      | .ok blocks => c.runAt blocks tolerance recording := by
  unfold run accept
  simp only [ht, Bool.not_true, Bool.false_eq_true, if_false]
  cases readBlocks parameters c.sizes with
  | error fault => rfl
  | ok blocks =>
      simp only []
      rcases ((Record.blank (α := α)).reset c.evaluator.numResiduals c.sizes c.tangentSizes).1 with
        fault | _
      · cases recording <;> rfl
      · rfl

/-- **A probe with an accepted tolerance ends as its survey says**, if it gets to one. -/
theorem fst_perform_run (c : Checker σ α) (machine : Machine) (w : World σ)
    (parameters : List (Supplied α)) (recording : Bool)
    (ht : Scalar.le Scalar.zero tolerance = true) :
    ((c.run parameters tolerance recording).perform machine w).1 =
      match c.accept parameters recording with
      | .error ending => .ok ending
      | .ok blocks => ((c.survey blocks recording).perform machine w).1.map
          (Survey.ending tolerance blocks.length) := by
  rw [c.run_eq_accept parameters recording ht]
  cases c.accept parameters recording with
  | error ending => rfl
  | ok blocks => exact c.fst_perform_runAt machine w blocks tolerance recording

/-- A survey has no fault of its own. -/
theorem survey_answers (c : Checker σ α) (machine : Machine) (w : World σ)
    (blocks : List (List α)) (recording : Bool) :
    ∃ found, ((c.survey blocks recording).perform machine w).1 = .ok found := by
  unfold survey
  rw [Action.perform_attempt_bind]
  rcases (c.read blocks).perform machine w with ⟨fault | _ | reading, w₁⟩
  · exact ⟨_, rfl⟩
  · exact ⟨_, rfl⟩
  · have hanswers : (c.differentiate blocks reading recording (c.tasks blocks reading.jacobians)
        {}).Promises (fun _ => True) fun _ => False := differentiate_answers reading _ {}
    obtain ⟨⟨progress, stopped⟩, w₂, hd, -⟩ := hanswers.exists_ok machine w₁
    refine (congrArg (fun q : Except Fault (Survey α) × World σ => ∃ found, q.1 = .ok found)
      (Action.perform_bind_of_ok hd)).mpr ?_
    cases stopped with
    | none => exact ⟨_, rfl⟩
    | some stop => exact ⟨_, rfl⟩

/-- **Which surveys get to the end**: those that find a value at the point, and project and
differentiate every block without a fault. -/
theorem survey_eq_complete_iff {reading : Reading α} {progress : Progress α} :
    ((c.survey blocks recording).perform machine w).1 = .ok (.complete reading progress) ↔
      ∃ w₁ ms w₂, (c.read blocks).perform machine w = (.ok (some reading), w₁) ∧
        c.Differentiates machine blocks reading.residuals recording
          (c.tasks blocks reading.jacobians) w₁ ms w₂ ∧
        progress = Progress.extend {} ms := by
  unfold survey
  rw [Action.perform_attempt_bind]
  constructor
  · intro h
    rcases hread : (c.read blocks).perform machine w with ⟨fault | _ | found, w₁⟩ <;>
      rw [hread] at h
    · cases h
    · cases h
    · obtain ⟨⟨after, stopped⟩, w₂, hd, h⟩ := Action.perform_bind_eq_ok_iff.1 (eq_mk_of_fst h)
      cases stopped with
      | some stop => cases (Prod.mk.inj h).1
      | none =>
          obtain ⟨rfl, rfl⟩ := Survey.complete.inj (Except.ok.inj (Prod.mk.inj h).1)
          obtain ⟨ms, hms, hprogress⟩ := differentiate_eq_none_iff.1 hd
          exact ⟨w₁, ms, w₂, rfl, hms, hprogress⟩
  · rintro ⟨w₁, ms, w₂, hread, hms, rfl⟩
    rw [hread]
    exact congrArg Prod.fst
      (Action.perform_bind_of_ok (differentiate_eq_none_iff.2 ⟨ms, hms, rfl⟩))

/-- A survey inherits what the evaluator and the manifolds have in common. -/
theorem survey_inherits {P : (β : Type) → Action σ β → Prop} (hP : Action.Inherited P)
    (hc : c.Has P) (blocks : List (List α)) (recording : Bool) :
    P _ (c.survey blocks recording) := by
  refine hP.bind (hP.attempt (read_inherits hP hc.1 blocks)) fun found => ?_
  rcases found with fault | _ | reading
  · exact hP.pure _
  · exact hP.pure _
  · refine hP.bind (differentiate_inherits hP hc.1 (fun task ht => ?_) _ _ _ _) fun done => ?_
    · obtain ⟨k, space, block, jacobian⟩ := task
      exact hc.2 space (List.mem_of_getElem? (mem_tasks_iff.1 ht).1)
    · obtain ⟨progress, _ | stop⟩ := done
      · exact hP.pure _
      · exact hP.pure _

end Checker

/-! ### Two surveys -/

/-- The projections are related block by block, and the numeric Jacobians are the same. -/
structure Progress.Related (t : Tensor α → Tensor α → Prop) (found found' : Progress α) : Prop where
  tangent : List.Forall₂ t found.tangent found'.tangent
  numericTangent : found.numericTangent = found'.numericTangent
  numericAmbient : found.numericAmbient = found'.numericAmbient

/-- The surveys got equally far, and what they found is related. -/
inductive Survey.Related (q : Reading α → Reading α → Prop) (t : Tensor α → Tensor α → Prop) :
    Survey α → Survey α → Prop
  | faulted (fault : Fault) : Related q t (.faulted fault) (.faulted fault)
  | pointFailed : Related q t .pointFailed .pointFailed
  | interrupted {reading reading' : Reading α} {progress progress' : Progress α} (k : ℕ)
      (fault : Fault) : q reading reading' → progress.Related t progress' →
      Related q t (.interrupted reading progress k fault) (.interrupted reading' progress' k fault)
  | complete {reading reading' : Reading α} {progress progress' : Progress α} :
      q reading reading' → progress.Related t progress' →
      Related q t (.complete reading progress) (.complete reading' progress')

omit [Scalar α] in
/-- Surveys that found the same. -/
theorem Survey.Related.eq {found found' : Survey α} (h : Related Eq Eq found found') :
    found = found' := by
  have hprogress : ∀ {progress progress' : Progress α}, progress.Related Eq progress' →
      progress = progress' := by
    intro progress progress' h
    cases progress
    cases progress'
    obtain ⟨ht, hn, ha⟩ := h
    simp only [List.forall₂_eq_eq_eq] at ht hn ha
    rw [ht, hn, ha]
  cases h with
  | faulted fault => rfl
  | pointFailed => rfl
  | interrupted k fault hq hp => rw [hq, hprogress hp]
  | complete hq hp => rw [hq, hprogress hp]

namespace Checker

variable {c c' : Checker σ α} {p : Coupling σ} {blocks : List (List α)} {recording : Bool}
  {t : Tensor α → Tensor α → Prop}

/-- **Probes end alike** if their surveys find what leads to endings in a relation, and if the same
is checked before. -/
theorem run_alike {machine machine' : Machine} {w w' : World σ} {parameters : List (Supplied α)}
    {tolerance : α} {q : Survey α → Survey α → Prop} {r : Ending α → Ending α → Prop}
    (hrefl : ∀ ending, r ending ending)
    (haccept : c.accept parameters recording = c'.accept parameters recording)
    (hending : ∀ found found' blocks, q found found' →
      r (found.ending tolerance blocks) (found'.ending tolerance blocks))
    (hsurvey : ∀ blocks, c.accept parameters recording = .ok blocks →
      Alike q ((c.survey blocks recording).perform machine w).1
        ((c'.survey blocks recording).perform machine' w').1) :
    Alike r ((c.run parameters tolerance recording).perform machine w).1
      ((c'.run parameters tolerance recording).perform machine' w').1 := by
  cases ht : Scalar.le Scalar.zero tolerance with
  | false =>
      unfold run
      simp only [ht, Bool.not_false, if_true, Action.perform_pure]
      exact .ok (hrefl _)
  | true =>
      rw [fst_perform_run _ _ _ _ _ ht, fst_perform_run _ _ _ _ _ ht, ← haccept]
      cases hblocks : c.accept parameters recording with
      | error ending => exact .ok (hrefl ending)
      | ok blocks =>
          exact (hsurvey blocks hblocks).map fun found found' hq =>
            hending found found' blocks.length hq

/-- The numeric Jacobians of the two checkers are coupled, and their blocks live on the same
manifolds. -/
structure SameNumerics (p : Coupling σ) (c c' : Checker σ α) : Prop where
  spaces : c.spaces = c'.spaces
  evaluator : c.evaluator.SameResiduals p c'.evaluator
  options : c.options.SameMethod c'.options
  workers : p.SameRuns c.options.workers c'.options.workers
  manifolds : ∀ space ∈ c.spaces, ∀ m ∈ space.manifold, m.Has (Action.Steady p)

/-- The numeric Jacobians of a block. -/
theorem SameNumerics.numeric (h : SameNumerics p c c') {space : BlockSpace σ α}
    (hspace : space ∈ c.spaces) (blocks : List (List α)) (residuals : List α) (recording : Bool)
    (k : ℕ) :
    (c.numeric blocks residuals recording k space).Coupled p Eq
      (c'.numeric blocks residuals recording k space) := by
  refine (estimate_coupled h.evaluator (h.manifolds space hspace) h.options h.workers _ _ _).bind_eq
    fun tangent => ?_
  cases recording with
  | false => exact .pure rfl
  | true =>
      cases space.manifold with
      | none => exact .pure rfl
      | some m =>
          exact (estimate_coupled h.evaluator (fun _ hm => absurd hm (Option.not_mem_none _))
            h.options h.workers _ _ _).bind_pure _

/-- Two tasks for the same block, with Jacobians whose projections are coupled. -/
structure TasksRelated (p : Coupling σ) (t : Tensor α → Tensor α → Prop)
    (task task' : ℕ × BlockSpace σ α × List α × Tensor α) : Prop where
  number : task.1 = task'.1
  space : task.2.1 = task'.2.1
  projected : (project (.array task.2.2.2) task.2.1.manifold (.vector task.2.2.1)).Coupled p t
    (project (.array task'.2.2.2) task'.2.1.manifold (.vector task'.2.2.1))

/-- The loop over the blocks. Induction on the tasks of the two loops. -/
theorem differentiate_coupled (h : SameNumerics p c c') {reading reading' : Reading α}
    (hresiduals : reading.residuals = reading'.residuals)
    {todo todo' : List (ℕ × BlockSpace σ α × List α × Tensor α)}
    (hspaces : ∀ task ∈ todo, task.2.1 ∈ c.spaces)
    (htodo : List.Forall₂ (TasksRelated p t) todo todo') {progress progress' : Progress α}
    (hprogress : progress.Related t progress') :
    (c.differentiate blocks reading recording todo progress).Coupled p
      (fun found found' => found.1.Related t found'.1 ∧ found.2 = found'.2)
      (c'.differentiate blocks reading' recording todo' progress') := by
  induction htodo generalizing progress progress' with
  | nil => exact .pure ⟨hprogress, rfl⟩
  | @cons task task' rest rest' htask _ ih =>
      obtain ⟨k, space, block, jacobian⟩ := task
      obtain ⟨k', space', block', jacobian'⟩ := task'
      obtain ⟨hk, hspace, hprojected⟩ := htask
      simp only at hk hspace hprojected
      subst hk hspace
      rw [differentiate, differentiate]
      refine hprojected.attempt.bind fun tangent tangent' htangent => ?_
      cases htangent with
      | error fault => exact .pure ⟨hprogress, rfl⟩
      | @ok tangent tangent' htangent =>
          rw [hresiduals]
          refine (h.numeric (hspaces _ List.mem_cons_self) blocks _ recording k).attempt.bind
            fun derived derived' hderived => ?_
          cases hderived.eq
          have hkept : List.Forall₂ t (progress.tangent ++ [tangent])
              (progress'.tangent ++ [tangent']) :=
            List.rel_append hprogress.tangent (.cons htangent .nil)
          cases derived with
          | error fault =>
              exact .pure ⟨⟨hkept, hprogress.numericTangent, hprogress.numericAmbient⟩, rfl⟩
          | ok derived =>
              obtain ⟨numericTangent, numericAmbient⟩ := derived
              refine ih (fun task ht => hspaces task (List.mem_cons_of_mem _ ht)) ⟨hkept, ?_, ?_⟩
              · simp only [hprogress.numericTangent]
              · simp only [hprogress.numericAmbient]

/-- **Surveys are coupled** if the readings are, and with them the projections of all blocks. -/
theorem survey_coupled (h : SameNumerics p c c') {q : Reading α → Reading α → Prop}
    (hread : (c.read blocks).Coupled p (Option.Rel q) (c'.read blocks))
    (hresiduals : ∀ reading reading', q reading reading' →
      reading.residuals = reading'.residuals)
    (htasks : ∀ reading reading', q reading reading' →
      List.Forall₂ (TasksRelated p t) (c.tasks blocks reading.jacobians)
        (c'.tasks blocks reading'.jacobians)) :
    (c.survey blocks recording).Coupled p (Survey.Related q t) (c'.survey blocks recording) := by
  refine hread.attempt.bind fun found found' hfound => ?_
  cases hfound with
  | error fault => exact .pure (.faulted fault)
  | ok hfound =>
      cases hfound with
      | none => exact .pure .pointFailed
      | @some reading reading' hq =>
          have hspaces : ∀ task ∈ c.tasks blocks reading.jacobians, task.2.1 ∈ c.spaces := by
            rintro ⟨k, space, block, jacobian⟩ ht
            exact List.mem_of_getElem? (mem_tasks_iff.1 ht).1
          refine (differentiate_coupled h (hresiduals _ _ hq) hspaces (htasks _ _ hq)
            ⟨.nil, rfl, rfl⟩).bind fun done done' hdone => ?_
          obtain ⟨progress, stopped⟩ := done
          obtain ⟨progress', stopped'⟩ := done'
          obtain ⟨hprogress, rfl⟩ := hdone
          cases stopped with
          | none => exact .pure (.complete hq hprogress)
          | some stop => exact .pure (.interrupted stop.1 stop.2 hq hprogress)

end Checker

/-! ### Comparing what was found -/

/-- How a matrix compares with another array. -/
theorem compareBlock_eq {block : Setting} {a n : Tensor α} {tolerance : α} {rows cols : ℕ}
    (ha : a.shape = [rows, cols]) :
    compareBlock block (.array a) (.array n) tolerance =
      if n.shape = [rows, cols] then
        .ok ⟨block, worstError (List.zipWith relativeError a.data n.data), tolerance,
          (offences cols a.data n.data (List.zipWith relativeError a.data n.data)
            tolerance).mergeSort Offence.atLeastAsBad⟩
      else .error (.size (.shapesDiffer a.shape n.shape)) := by
  split
  · next hn => exact (compareBlock_eq_ok_iff ha).2 ⟨hn, rfl⟩
  · next hn =>
      have he : errorsOf a n = .error (.size (.shapesDiffer a.shape n.shape)) :=
        if_neg fun h => hn (h.symm.trans ha)
      simp only [compareBlock, Supplied.read_array, bind, Except.bind, he]

/-- Two matrices with the same errors. The one may be compared within another tolerance than the
other. -/
structure SameErrors (a a' : Tensor α) : Prop where
  matrix : ∃ rows cols, a.shape = [rows, cols]
  shape_eq : a.shape = a'.shape
  errors_eq (n : Tensor α) : n.shape = a.shape →
    List.zipWith relativeError a.data n.data = List.zipWith relativeError a'.data n.data

/-- Of matrices with the same errors, the worst errors are the same. -/
theorem SameErrors.compareBlock {a a' : Tensor α} (h : SameErrors a a') (block : Setting)
    (n : Tensor α) (tolerance tolerance' : α) :
    Alike (fun c c' => c.worst = c'.worst)
      (compareBlock block (.array a) (.array n) tolerance)
      (compareBlock block (.array a') (.array n) tolerance') := by
  obtain ⟨rows, cols, ha⟩ := h.matrix
  rw [compareBlock_eq ha, compareBlock_eq (h.shape_eq.symm.trans ha), ← h.shape_eq]
  by_cases hn : n.shape = [rows, cols]
  · rw [if_pos hn, if_pos hn]
    exact .ok (congrArg worstError (h.errors_eq n (hn.trans ha.symm)))
  · rw [if_neg hn, if_neg hn]
    exact .error _

theorem forall₂_zip_zipIdx {β γ : Type} {r : β → β → Prop} {xs ys : List β}
    (h : List.Forall₂ r xs ys) (ns : List γ) (k : ℕ) :
    List.Forall₂ (fun q q' => r q.1.1 q'.1.1 ∧ q.1.2 = q'.1.2 ∧ q.2 = q'.2)
      ((xs.zip ns).zipIdx k) ((ys.zip ns).zipIdx k) := by
  induction h generalizing ns k with
  | nil => exact .nil
  | cons hxy _ ih =>
      cases ns with
      | nil => exact .nil
      | cons n ns => exact .cons ⟨hxy, rfl, rfl⟩ (ih ns (k + 1))

/-- Block by block, the comparisons are alike. -/
theorem Progress.Related.compare {t : Tensor α → Tensor α → Prop}
    {r : BlockComparison α → BlockComparison α → Prop} {tolerance tolerance' : α}
    (hblock : ∀ block a a' n, t a a' → Alike r (compareBlock block (.array a) (.array n) tolerance)
      (compareBlock block (.array a') (.array n) tolerance'))
    {found found' : Progress α} (h : found.Related t found') :
    Alike (List.Forall₂ r) (Checker.compare found tolerance)
      (Checker.compare found' tolerance') := by
  unfold Checker.compare
  rw [← h.numericTangent]
  refine .mapM ((forall₂_zip_zipIdx h.tangent found.numericTangent 0).imp fun q q' hq => ?_)
  obtain ⟨hsame, hn, hk⟩ := hq
  rw [← hn, ← hk]
  exact hblock _ _ _ _ hsame

/-- The worst error over all blocks is a matter of the blocks' worst errors. -/
theorem worstOfBlocks_congr {comparisons comparisons' : List (BlockComparison α)}
    (h : List.Forall₂ (fun c c' => c.worst = c'.worst) comparisons comparisons') :
    worstOfBlocks comparisons = worstOfBlocks comparisons' := by
  have hworst : comparisons.map (·.worst) = comparisons'.map (·.worst) := by
    rwa [← List.forall₂_eq_eq_eq, List.forall₂_map_left_iff, List.forall₂_map_right_iff]
  have hnan : ∀ cs : List (BlockComparison α), (cs.any fun c => Scalar.isNaN c.worst) =
      (cs.map (·.worst)).any Scalar.isNaN := by
    intro cs
    rw [List.any_map]
    rfl
  unfold worstOfBlocks
  rw [hnan, hnan, hworst]

end JacobianAudit
