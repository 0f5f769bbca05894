/-
**Columns that no step can see.**

Two evaluators may differ in the columns of their Jacobians that belong to entries which a manifold
cannot move. Nothing of that reaches the numeric Jacobians, and of the projected ones it reaches no
more than whether the hidden entries are finite. So the two surveys find the same but for
projections whose errors are the same, and the verdicts are the same too. An entry that is not
finite leaves an error that is not a number, and such an error never passes.

Main definitions:

* `JacobianAudit.Evaluator.SameSeen` — two evaluators that agree where nothing is hidden;
* `JacobianAudit.Evaluator.Spoilt` — an evaluator with a hidden entry that is not finite.

Main results:

* `JacobianAudit.Checker.read_coupled` — readings are related as the answers are;
* `JacobianAudit.Checker.probe_fine`, `JacobianAudit.Checker.probe_spoilt` — what is hidden is
  finite, or it is not;
* `JacobianAudit.Checker.hidden_columns_masked` — **the two together, with the faults**.
-/

import JacobianAudit.Proofs.Masking

set_option autoImplicit false

namespace JacobianAudit

variable {σ : Type}

/-! ### Answers and readings -/

section Related

variable {α : Type} [Scalar α] {spaces : List (BlockSpace σ α)}
  {d : BlockSpace σ α → List α → List α → Prop}

/-- Two answers with the same residuals, whose Jacobians have entries in a relation, block by
block. -/
structure Answer.Related (spaces : List (BlockSpace σ α))
    (d : BlockSpace σ α → List α → List α → Prop) (a a' : Answer α) : Prop where
  residuals : a.residuals = a'.residuals
  jacobians : Option.Rel (PlaceByPlace fun k j j' => ∀ space ∈ spaces[k]?,
    Alike (Tensor.Related (d space)) j.read j'.read) a.jacobians a'.jacobians

/-- Two readings with the same residuals, whose Jacobians have entries in a relation. -/
structure Reading.Related (spaces : List (BlockSpace σ α))
    (d : BlockSpace σ α → List α → List α → Prop) (reading reading' : Reading α) : Prop where
  residuals : reading.residuals = reading'.residuals
  jacobians : PlaceByPlace (fun k t t' => ∀ space ∈ spaces[k]?, Tensor.Related (d space) t t')
    reading.jacobians reading'.jacobians

/-- Reading a matrix looks at the shape of an array and not at its entries. -/
theorem readMatrix_related {d : List α → List α → Prop} {j j' : Supplied α}
    (h : Alike (Tensor.Related d) j.read j'.read) (rows cols : Setting) (name : String) :
    Alike (Tensor.Related d) (readMatrix j rows cols name) (readMatrix j' rows cols name) := by
  refine h.bind fun t t' ht => ?_
  have hflat : isFlatMatrix t rows cols = isFlatMatrix t' rows cols := by
    unfold isFlatMatrix
    rw [ht.shape_eq]
  have hmatrix : isMatrix t rows cols = isMatrix t' rows cols := by
    unfold isMatrix
    rw [ht.shape_eq]
  have hlength : t.data.length = t'.data.length := by rw [t.size_eq, t'.size_eq, ht.shape_eq]
  rw [hflat]
  refine .bind_same fun flat => ?_
  split
  · refine .bind_same fun shape => ?_
    by_cases hsize : t.data.length = shape.size
    · rw [dif_pos hsize, dif_pos (hlength ▸ hsize)]
      exact .ok ⟨rfl, ht.data⟩
    · rw [dif_neg hsize, dif_neg (hlength ▸ hsize)]
      exact .error _
  · rw [hmatrix, ht.shape_eq]
    split
    · exact .ok ht
    · exact .error _

/-- Jacobians that are read one after the other, each for its block. -/
theorem readMatrices_related {jacobians jacobians' : List (Supplied α)}
    (h : PlaceByPlace (fun k j j' => ∀ space ∈ spaces[k]?,
      Alike (Tensor.Related (d space)) j.read j'.read) jacobians jacobians')
    (rows : Setting) (name : ℕ → String) :
    Alike (PlaceByPlace fun k t t' => ∀ space ∈ spaces[k]?, Tensor.Related (d space) t t')
      (((jacobians.zip (spaces.map (·.size))).zipIdx).mapM fun q =>
        readMatrix q.1.1 rows q.1.2 (name q.2))
      (((jacobians'.zip (spaces.map (·.size))).zipIdx).mapM fun q =>
        readMatrix q.1.1 rows q.1.2 (name q.2)) := by
  refine PlaceByPlace.mapM ⟨by simp [h.length_eq], fun k q q' hq hq' => ?_⟩
  simp only [List.getElem?_zipIdx, Nat.zero_add, Option.map_eq_some_iff] at hq hq'
  obtain ⟨⟨j, size⟩, hj, rfl⟩ := hq
  obtain ⟨⟨j', size'⟩, hj', rfl⟩ := hq'
  obtain ⟨hj, hsize⟩ := List.getElem?_zip_eq_some.1 hj
  obtain ⟨hj', hsize'⟩ := List.getElem?_zip_eq_some.1 hj'
  obtain rfl := Option.some.inj (hsize.symm.trans hsize')
  rw [List.getElem?_map, Option.map_eq_some_iff] at hsize
  obtain ⟨space, hspace, -⟩ := hsize
  refine (readMatrix_related (h.item k j j' hj hj' space hspace) rows size (name k)).mono
    fun t t' ht space' hspace' => ?_
  obtain rfl := Option.some.inj (hspace.symm.trans hspace')
  exact ht

variable {c : Checker σ α} {e' : Evaluator σ α} {p : Coupling σ}

/-- **Readings are related as the answers are.** -/
theorem Checker.read_coupled (hrows : c.evaluator.numResiduals = e'.numResiduals)
    {blocks : List (List α)}
    (he : (c.evaluator.evaluate (blocks.map .vector) (some (blocks.map fun _ => true))).Coupled p
      (Option.Rel (Answer.Related c.spaces d))
      (e'.evaluate (blocks.map .vector) (some (blocks.map fun _ => true)))) :
    (c.read blocks).Coupled p (Option.Rel (Reading.Related c.spaces d))
      ({ c with evaluator := e' }.read blocks) := by
  unfold read
  refine he.bind fun answer answer' hanswer => ?_
  cases hanswer with
  | none => exact .pure .none
  | @some answer answer' h =>
      obtain ⟨residuals, jacobians⟩ := answer
      obtain ⟨residuals', jacobians'⟩ := answer'
      obtain ⟨hresiduals, hjacobians⟩ := h
      simp only at hresiduals hjacobians ⊢
      rw [← hresiduals, ← hrows]
      refine .ofExcept_bind fun found _ => ?_
      cases hjacobians with
      | none => exact .throw _
      | @some jacobians jacobians' h =>
          simp only [← h.length_eq]
          split
          · have hread := readMatrices_related h c.evaluator.numResiduals fun k =>
              "Jacobian of block " ++ toString k
            exact (Action.Coupled.ofExcept hread).bind fun ts ts' hts => .pure (.some ⟨rfl, hts⟩)
          · exact .throw _

end Related

/-! ### Evaluators -/

section

variable {α : Type} [Scalar α] {spaces : List (BlockSpace σ α)} {e e' : Evaluator σ α}
  {p : Coupling σ}

/-- Two evaluators of the same sizes that agree on the residuals everywhere, and on the Jacobians
but for columns that belong to entries that the blocks' manifolds cannot move. -/
structure Evaluator.SameSeen (p : Coupling σ) (spaces : List (BlockSpace σ α))
    (e e' : Evaluator σ α) : Prop where
  blockSizes : e.blockSizes = e'.blockSizes
  numResiduals : e.numResiduals = e'.numResiduals
  evaluate (parameters : List (Supplied α)) (request : Option (List Bool)) :
    (e.evaluate parameters request).Coupled p
      (Option.Rel (Answer.Related spaces BlockSpace.SameSeen)) (e'.evaluate parameters request)

/-- The answer has an entry that is not finite in a hidden column of a block with a tangent
coordinate. -/
def Answer.Spoilt (spaces : List (BlockSpace σ α)) (answer : Answer α) : Prop :=
  ∃ (jacobians : List (Supplied α)) (k : ℕ) (space : BlockSpace σ α) (j : Supplied α)
    (t : Tensor α), answer.jacobians = some jacobians ∧ spaces[k]? = some space ∧
      jacobians[k]? = some j ∧ j.read = .ok t ∧ space.Spoilt t.data

/-- Asked for all Jacobians at a point, the evaluator gives such an answer. -/
def Evaluator.Spoilt (e : Evaluator σ α) (spaces : List (BlockSpace σ α))
    (parameters : List (Supplied α)) : Prop :=
  ∃ blocks machine w answer, readBlocks parameters (spaces.map (·.size)) = .ok blocks ∧
    ((e.evaluate (blocks.map .vector) (some (blocks.map fun _ => true))).perform machine w).1 =
      .ok (some answer) ∧ answer.Spoilt spaces

/-- Where an evaluator is not spoilt, none of its answers is. -/
theorem Evaluator.answer_not_spoilt {parameters : List (Supplied α)} {blocks : List (List α)}
    (h : ¬e.Spoilt spaces parameters)
    (hb : readBlocks parameters (spaces.map (·.size)) = .ok blocks) (machine : Machine)
    (w : World σ) (found : Option (Answer α))
    (hfound : ((e.evaluate (blocks.map .vector) (some (blocks.map fun _ => true))).perform machine
      w).1 = .ok found) : ∀ answer, found = some answer → ¬answer.Spoilt spaces := by
  rintro answer rfl hspoilt
  exact h ⟨blocks, machine, w, answer, hb, hfound, hspoilt⟩

/-- Two lists of entries that are the same where nothing is hidden, and finite where something
is. -/
def BlockSpace.SameFine (space : BlockSpace σ α) (xs ys : List α) : Prop :=
  space.SameSeen xs ys ∧ ¬space.Spoilt xs ∧ ¬space.Spoilt ys

theorem Answer.Related.fine {a a' : Answer α} (h : Related spaces BlockSpace.SameSeen a a')
    (ha : ¬a.Spoilt spaces) (ha' : ¬a'.Spoilt spaces) :
    Related spaces BlockSpace.SameFine a a' := by
  obtain ⟨residuals, jacobians⟩ := a
  obtain ⟨residuals', jacobians'⟩ := a'
  obtain ⟨hresiduals, hjacobians⟩ := h
  refine ⟨hresiduals, ?_⟩
  simp only at hjacobians ⊢
  cases hjacobians with
  | none => exact .none
  | @some jacobians jacobians' h =>
      refine .some ⟨h.length_eq, fun k j j' hj hj' space hspace => ?_⟩
      have hboth := (h.item k j j' hj hj' space hspace).and
        (fun t ht hspoilt => ha ⟨jacobians, k, space, j, t, rfl, hspace, hj, ht, hspoilt⟩)
        (fun t ht hspoilt => ha' ⟨jacobians', k, space, j', t, rfl, hspace, hj', ht, hspoilt⟩)
      exact hboth.mono fun t t' ht => ⟨ht.1.shape_eq, ht.1.data, ht.2⟩

theorem Evaluator.SameSeen.sameResiduals (h : e.SameSeen p spaces e') : e.SameResiduals p e' where
  blockSizes := h.blockSizes
  numResiduals := h.numResiduals
  evaluate parameters := (h.evaluate parameters none).mono fun x y hxy => by
    cases hxy with
    | none => exact .none
    | some h => exact .some h.residuals

end

/-! ### Projections -/

/-- Jacobians that are the same where nothing is hidden, projected. Unless the manifold freezes
something they are the same throughout. -/
theorem BlockSpace.project_coupled {p : Coupling σ} {t : Tensor Float → Tensor Float → Prop}
    {space : BlockSpace σ Float} (hm : ∀ m ∈ space.manifold, m.Has (Action.Steady p))
    (hsame : ∀ a, (∃ rows cols, a.shape = [rows, cols]) → t a a) {j j' : Tensor Float}
    (hj : j.Related space.SameSeen j')
    (hproduct : ∀ m n r step rows, space.manifold = some m → m.Masks n r step →
      j.shape = [rows, n] → t (j.matmul rows n r step) (j'.matmul rows n r step))
    (xs : List Float) :
    (project (.array j) space.manifold (.vector xs)).Coupled p t
      (project (.array j') space.manifold (.vector xs)) := by
  by_cases hfrozen : ∃ m i, space.manifold = some m ∧ m.Freezes i
  · obtain ⟨m, i, hmanifold, hi⟩ := hfrozen
    obtain ⟨n, r, step, hmasks⟩ := Manifold.exists_masks hi
    rw [hmanifold, hmasks.project_eq, hmasks.project_eq, ← hj.shape_eq]
    split
    · next rows cols hshape =>
      split
      · next hn =>
        cases m.room with
        | error fault => exact .throw _
        | ok _ => exact .pure (hproduct m n r step rows hmanifold hmasks (hn ▸ hshape))
      · exact .throw _
    · exact .throw _
  · have heq : j = j' := hj.eq fun xs ys hxs => List.ext_getElem? fun place =>
      hxs place fun ⟨m, _, hmanifold, _, hi⟩ => hfrozen ⟨m, _, hmanifold, hi⟩
    subst heq
    exact ((Checker.project_steady hm _ _).and_left fun _ _ _ _ => shape_of_project).mono
      fun x y hxy => hxy.1 ▸ hsame x hxy.2

/-! ### Surveys and verdicts -/

namespace Checker

variable {c : Checker σ Float} {e' : Evaluator σ Float} {p : Coupling σ} {tolerance : Float}

/-- Surveys are coupled if the answers at the point and the projections are. -/
theorem survey_hidden (hruns : p.SameRuns c.options.workers c.options.workers)
    (hm : ∀ space ∈ c.spaces, ∀ m ∈ space.manifold, m.Has (Action.Steady p))
    (h : c.evaluator.SameSeen p c.spaces e')
    {d : BlockSpace σ Float → List Float → List Float → Prop}
    {t : Tensor Float → Tensor Float → Prop} {blocks : List (List Float)} {recording : Bool}
    (hread : (c.evaluator.evaluate (blocks.map .vector)
        (some (blocks.map fun _ => true))).Coupled p (Option.Rel (Answer.Related c.spaces d))
      (e'.evaluate (blocks.map .vector) (some (blocks.map fun _ => true))))
    (hproject : ∀ space ∈ c.spaces, ∀ j j', Tensor.Related (d space) j j' → ∀ xs : List Float,
      (project (.array j) space.manifold (.vector xs)).Coupled p t
        (project (.array j') space.manifold (.vector xs))) :
    (c.survey blocks recording).Coupled p (Survey.Related (Reading.Related c.spaces d) t)
      ({ c with evaluator := e' }.survey blocks recording) := by
  have hnumerics : SameNumerics p c { c with evaluator := e' } :=
    ⟨rfl, h.sameResiduals, .rfl, hruns, hm⟩
  refine survey_coupled hnumerics (read_coupled h.numResiduals hread)
    (fun _ _ hq => hq.residuals) fun reading reading' hq => ?_
  refine PlaceByPlace.iff_forall₂.1 ⟨by simp [tasks, hq.jacobians.length_eq], ?_⟩
  rintro k ⟨i, space, block, j⟩ ⟨i', space', block', j'⟩ htask htask'
  obtain ⟨rfl, hspace, hblock, hj⟩ := getElem?_tasks_iff.1 htask
  obtain ⟨rfl, hspace', hblock', hj'⟩ := getElem?_tasks_iff.1 htask'
  obtain rfl : space = space' := Option.some.inj (hspace.symm.trans hspace')
  obtain rfl : block = block' := Option.some.inj (hblock.symm.trans hblock')
  exact ⟨rfl, rfl, hproject space (List.mem_of_getElem? hspace) j j'
    (hq.jacobians.item _ j j' hj hj' space hspace) block⟩

/-- What an interrupted probe answers is decided by the fault. -/
theorem interrupted_alike {r : Bool → Bool → Prop} (hrefl : ∀ b, r b b)
    (reading reading' : Reading Float) (progress progress' : Progress Float) (k : ℕ)
    (fault : Fault) :
    Alike r ((Ending.interrupted reading progress k fault).verdict tolerance)
      ((Ending.interrupted reading' progress' k fault).verdict tolerance) := by
  cases fault with
  | evaluation cause => exact .ok (hrefl false)
  | _ => exact .error _

/-- Verdicts are alike if comparisons of related progress lead to alike verdicts. -/
theorem verdict_alike {q : Reading Float → Reading Float → Prop}
    {t : Tensor Float → Tensor Float → Prop} {r : Bool → Bool → Prop} (hrefl : ∀ b, r b b)
    (hcompare : ∀ progress progress' : Progress Float, progress.Related t progress' →
      Alike (fun cs cs' => r (Scalar.le (worstOfBlocks cs) tolerance)
        (Scalar.le (worstOfBlocks cs') tolerance))
        (compare progress tolerance) (compare progress' tolerance))
    {found found' : Survey Float} (h : Survey.Related q t found found') (blocks : ℕ) :
    Alike r ((found.ending tolerance blocks).verdict tolerance)
      ((found'.ending tolerance blocks).verdict tolerance) := by
  cases h with
  | faulted fault => exact .error fault
  | pointFailed => exact .ok (hrefl false)
  | interrupted k fault _ _ => exact interrupted_alike hrefl _ _ _ _ k fault
  | @complete reading reading' progress progress' _ hprogress =>
      have halike := hcompare progress progress' hprogress
      simp only [Survey.ending]
      generalize compare progress tolerance = x at halike ⊢
      generalize compare progress' tolerance = y at halike ⊢
      cases halike with
      | ok hr => exact .ok hr
      | error fault => exact interrupted_alike hrefl _ _ _ _ blocks fault

variable {machine machine' : Machine} {w w' : World σ} {parameters : List (Supplied Float)}

theorem readBlocks_of_accept {recording : Bool} {blocks : List (List Float)}
    (h : c.accept parameters recording = .ok blocks) :
    readBlocks parameters c.sizes = .ok blocks := by
  unfold accept at h
  cases hb : readBlocks parameters c.sizes with
  | error fault =>
      rw [hb] at h
      cases h
  | ok read =>
      rw [hb] at h
      simp only [] at h
      split at h
      · cases h
      · rw [Except.ok.inj h]

/-- **Probes answer alike** if answers at the point, projections and comparisons are. -/
theorem probe_alike (hruns : p.SameRuns c.options.workers c.options.workers)
    (hm : ∀ space ∈ c.spaces, ∀ m ∈ space.manifold, m.Has (Action.Steady p))
    (h : c.evaluator.SameSeen p c.spaces e') (hmachine : p.machines machine machine')
    (hw : p.states w.shared w'.shared)
    {d : BlockSpace σ Float → List Float → List Float → Prop}
    {t : Tensor Float → Tensor Float → Prop} {r : Bool → Bool → Prop} (hrefl : ∀ b, r b b)
    (hread : ∀ blocks, readBlocks parameters c.sizes = .ok blocks →
      (c.evaluator.evaluate (blocks.map .vector) (some (blocks.map fun _ => true))).Coupled p
        (Option.Rel (Answer.Related c.spaces d))
        (e'.evaluate (blocks.map .vector) (some (blocks.map fun _ => true))))
    (hproject : ∀ space ∈ c.spaces, ∀ j j', Tensor.Related (d space) j j' → ∀ xs : List Float,
      (project (.array j) space.manifold (.vector xs)).Coupled p t
        (project (.array j') space.manifold (.vector xs)))
    (hcompare : ∀ progress progress' : Progress Float, progress.Related t progress' →
      Alike (fun cs cs' => r (Scalar.le (worstOfBlocks cs) tolerance)
        (Scalar.le (worstOfBlocks cs') tolerance))
        (compare progress tolerance) (compare progress' tolerance)) :
    Alike r ((c.probe parameters tolerance).perform machine w).1
      (({ c with evaluator := e' }.probe parameters tolerance).perform machine' w').1 := by
  unfold probe
  rw [Action.fst_perform_bind_ofExcept, Action.fst_perform_bind_ofExcept]
  have hends : Alike (fun ending ending' => Alike r (ending.verdict tolerance)
      (ending'.verdict tolerance)) ((c.run parameters tolerance false).perform machine w).1
      (({ c with evaluator := e' }.run parameters tolerance false).perform machine' w').1 := by
    refine run_alike (q := Survey.Related (Reading.Related c.spaces d) t) (fun ending => ?_) ?_
      (fun found found' blocks hq => verdict_alike hrefl hcompare hq blocks) fun blocks hb => ?_
    · cases ending.verdict tolerance with
      | ok b => exact .ok (hrefl b)
      | error fault => exact .error fault
    · unfold accept sizes tangentSizes
      rw [h.numResiduals]
    · exact (survey_hidden hruns hm h (hread blocks (readBlocks_of_accept hb)) hproject machine
        machine' w w' hmachine hw).1
  exact hends.bind fun ending ending' hverdict => hverdict

/-- Whatever is hidden, the same faults come out of it. -/
theorem probe_faults (hruns : p.SameRuns c.options.workers c.options.workers)
    (hm : ∀ space ∈ c.spaces, ∀ m ∈ space.manifold, m.Has (Action.Steady p))
    (h : c.evaluator.SameSeen p c.spaces e') (hmachine : p.machines machine machine')
    (hw : p.states w.shared w'.shared) :
    Alike (fun _ _ => True) ((c.probe parameters tolerance).perform machine w).1
      (({ c with evaluator := e' }.probe parameters tolerance).perform machine' w').1 := by
  let t : Tensor Float → Tensor Float → Prop := fun a a' =>
    (∃ rows cols, a.shape = [rows, cols]) ∧ a.shape = a'.shape
  refine probe_alike (t := t) hruns hm h hmachine hw (fun _ => trivial)
    (fun blocks _ => h.evaluate _ _) (fun space hs j j' hj => space.project_coupled (hm space hs)
      (fun a ha => ⟨ha, rfl⟩) hj fun m n r step rows _ _ _ => ?_)
    fun progress progress' hprogress => ?_
  · rw [Tensor.matmul_eq, Tensor.matmul_eq]
    exact ⟨⟨rows, r, rfl⟩, rfl⟩
  · refine (hprogress.compare (r := fun _ _ => True) fun block a a' n ha => ?_).mono
      fun _ _ _ => trivial
    obtain ⟨⟨rows, cols, hshape⟩, hsame⟩ := ha
    rw [compareBlock_eq hshape, compareBlock_eq (hsame ▸ hshape), hsame]
    split
    · exact .ok trivial
    · exact .error _

/-- **Where what is hidden is finite, the verdicts are the same.** -/
theorem probe_fine (hruns : p.SameRuns c.options.workers c.options.workers)
    (hm : ∀ space ∈ c.spaces, ∀ m ∈ space.manifold, m.Has (Action.Steady p))
    (h : c.evaluator.SameSeen p c.spaces e') (hmachine : p.machines machine machine')
    (hw : p.states w.shared w'.shared) (hfine : ¬c.evaluator.Spoilt c.spaces parameters)
    (hfine' : ¬e'.Spoilt c.spaces parameters) :
    ((c.probe parameters tolerance).perform machine w).1 =
      (({ c with evaluator := e' }.probe parameters tolerance).perform machine' w').1 := by
  refine Alike.eq (probe_alike (d := BlockSpace.SameFine) (t := SameErrors) hruns hm h hmachine hw
    (fun _ => rfl) (fun blocks hb => ?_) (fun space hs j j' hj => ?_)
    fun progress progress' hprogress => ?_)
  · intro machine machine' w w' hmachine hw
    obtain ⟨halike, hstates⟩ := h.evaluate (blocks.map .vector) (some (blocks.map fun _ => true))
      machine machine' w w' hmachine hw
    refine ⟨?_, hstates⟩
    refine (halike.and (Evaluator.answer_not_spoilt hfine hb machine w)
      (Evaluator.answer_not_spoilt hfine' hb machine' w')).mono fun found found' hfound => ?_
    obtain ⟨hrel, hfirst, hsecond⟩ := hfound
    cases hrel with
    | none => exact .none
    | some hrel => exact .some (hrel.fine (hfirst _ rfl) (hsecond _ rfl))
  · refine space.project_coupled (hm space hs) (fun a ha => ⟨ha, rfl, fun _ _ => rfl⟩)
      ⟨hj.shape_eq, hj.data.1⟩ fun m n r step rows hmanifold hmasks hshape => ?_
    exact BlockSpace.matmul_sameErrors hmanifold hmasks hshape ⟨hj.shape_eq, hj.data.1⟩ hj.data.2.1
      hj.data.2.2
  · refine (hprogress.compare fun block a a' n ha => ha.compareBlock block n tolerance
      tolerance).mono fun cs cs' hcs => ?_
    rw [worstOfBlocks_congr hcs]

theorem Differentiates.exists_projected {blocks : List (List Float)} {residuals : List Float}
    {recording : Bool} {todo : List (ℕ × BlockSpace σ Float × List Float × Tensor Float)}
    {ms : List (BlockMatrices Float)}
    (h : c.Differentiates machine blocks residuals recording todo w ms w')
    {task : ℕ × BlockSpace σ Float × List Float × Tensor Float} (ht : task ∈ todo) :
    ∃ m ∈ ms, ∃ w₁ w₂, (project (.array task.2.2.2) task.2.1.manifold
      (.vector task.2.2.1)).perform machine w₁ = (.ok m.tangent, w₂) := by
  induction h with
  | nil => cases ht
  | cons hproject _ _ ih =>
      rcases List.mem_cons.1 ht with rfl | ht
      · exact ⟨_, List.mem_cons_self, _, _, hproject⟩
      · obtain ⟨m, hm, h⟩ := ih ht
        exact ⟨m, List.mem_cons_of_mem _ hm, h⟩

/-- A projection that is spoilt agrees with nothing. -/
theorem not_within_of_spoilt {space : BlockSpace σ Float} {j tangent numeric : Tensor Float}
    {xs : List Float} (hspoilt : space.Spoilt j.data)
    (hproject : (project (.array j) space.manifold (.vector xs)).perform machine w =
      (.ok tangent, w')) : ¬Within tolerance tangent numeric := by
  obtain ⟨-, _, _, ⟨m, _, hmanifold, -, hi⟩, -⟩ := id hspoilt
  obtain ⟨n, r, step, hmasks⟩ := Manifold.exists_masks hi
  rw [hmanifold, hmasks.project_eq] at hproject
  split at hproject
  · next rows cols hshape =>
    split at hproject
    · next hn =>
      rw [Action.perform_ofExcept, Prod.mk.injEq, Except.map_eq_ok_iff] at hproject
      obtain ⟨⟨_, -, rfl⟩, -⟩ := hproject
      obtain ⟨i, hrow, hr, hnan⟩ :=
        BlockSpace.exists_get_matmul_isNaN hmanifold hmasks (hn ▸ hshape) hspoilt
      rintro ⟨rows', cols', hshape', -, hle⟩
      rw [Tensor.matmul_eq, Tensor.shape_matrix] at hshape'
      obtain ⟨rfl, rfl⟩ : rows = rows' ∧ r = cols' := by simpa using hshape'
      have hno := Scalar.le_eq_false_of_isNaN (t := tolerance)
        (Binary64.relativeError_isNaN hnan (numeric.get [i, 0]))
      rw [hle i hrow 0 hr] at hno
      cases hno
    · cases (Prod.mk.inj hproject).1
  · cases (Prod.mk.inj hproject).1

/-- **Where something that is hidden is not finite, nothing passes.** -/
theorem probe_spoilt (he : c.evaluator.Has fun _ a => a.Settled)
    (hspoilt : c.evaluator.Spoilt c.spaces parameters) :
    ((c.probe parameters tolerance).perform machine w).1 ≠ .ok true := by
  intro hyes
  obtain ⟨ending, w₁, hrun, hv⟩ := Action.perform_bind_eq_ok_iff.1 (eq_mk_of_fst hyes)
  rw [Action.perform_ofExcept, Prod.mk.injEq] at hv
  obtain ⟨blocks, reading, w₂, ms, w₃, hb, hread, hms, -, hwithin⟩ :=
    (verdict_iff_agrees hrun hv.1).1 rfl
  obtain ⟨answer, jacobians, hanswer, -, hjacobians, hlength, hmatrices⟩ := of_read hread
  obtain ⟨blocks', machine', w', answer', hb', hanswer', jacobians', k, space, j, t, hjacobians',
    hspace, hj, ht, hentries⟩ := hspoilt
  obtain rfl : blocks = blocks' := Except.ok.inj (hb.symm.trans hb')
  obtain rfl : answer = answer' := Option.some.inj (Except.ok.inj
    ((congrArg Prod.fst hanswer).symm.trans ((he _ _ machine machine' w w').trans hanswer')))
  obtain rfl : jacobians = jacobians' := Option.some.inj (hjacobians.symm.trans hjacobians')
  -- the Jacobian that is read has the entries that were answered
  obtain ⟨hl, hmatrix⟩ := Except.mapM_eq_ok_iff_getElem.1 hmatrices
  have hblocks : blocks.length = c.spaces.length := by
    rw [length_of_readBlocks hb, sizes, List.length_map]
  obtain ⟨hk, -⟩ := List.getElem?_eq_some_iff.1 hspace
  obtain ⟨hkj, rfl⟩ := List.getElem?_eq_some_iff.1 hj
  have hkt : k < reading.jacobians.length := length_of_read hblocks hread ▸ hk
  have hone := hmatrix k (by simpa [sizes, hlength, hblocks] using hk) hkt
  simp only [List.getElem_zipIdx, List.getElem_zip] at hone
  have hdata : t.data = reading.jacobians[k].data := by
    refine Except.ok.inj (Eq.trans ?_ (entries_of_readMatrix hone))
    simp only [Supplied.entries, ht]
    rfl
  obtain ⟨m, hm, w₄, w₅, hproject⟩ := hms.exists_projected (mem_tasks_iff.2 ⟨hspace,
    List.getElem?_eq_getElem (hblocks ▸ hk), List.getElem?_eq_getElem hkt⟩)
  exact not_within_of_spoilt (hdata ▸ hentries) hproject (hwithin m hm)

/-- **Columns that no step can see are masked, up to whether they are finite.** Of two deterministic
evaluators that agree on residuals, and on Jacobians but for columns of entries that the manifolds
cannot move, probes meet the same faults. A probe says no where its evaluator answers with a hidden
entry that is not finite, in a block with a tangent coordinate; and unless that is so for one of the
evaluators only, the two answer the same. If the manifolds are deterministic too, the probes may be
run anywhere. If they keep a state, the two are run on one machine, from states that the manifolds
cannot tell apart and that the evaluators leave so. -/
theorem hidden_columns_masked (c : Checker σ Float) (e' : Evaluator σ Float) {p : Coupling σ}
    (hp : p = .free ∨ ∃ states, p = .oneMachine states)
    (he : c.evaluator.Has fun _ a => a.Settled) (he' : e'.Has fun _ a => a.Settled)
    (h : c.evaluator.SameSeen p c.spaces e')
    (hm : ∀ space ∈ c.spaces, ∀ m ∈ space.manifold, m.Has (Action.Steady p))
    (parameters : List (Supplied Float)) (tolerance : Float) (machine machine' : Machine)
    (w w' : World σ) (hmachine : p.machines machine machine') (hw : p.states w.shared w'.shared) :
    let first := ((c.probe parameters tolerance).perform machine w).1
    let second := (({ c with evaluator := e' }.probe parameters tolerance).perform machine' w').1
    (∀ fault, first = .error fault ↔ second = .error fault) ∧
      (c.evaluator.Spoilt c.spaces parameters → first ≠ .ok true) ∧
      (e'.Spoilt c.spaces parameters → second ≠ .ok true) ∧
      ((c.evaluator.Spoilt c.spaces parameters ↔ e'.Spoilt c.spaces parameters) →
        first = second) := by
  intro first second
  have hruns : p.SameRuns c.options.workers c.options.workers := by
    rcases hp with rfl | ⟨states, rfl⟩
    · exact sameRuns_free_self _
    · exact Coupling.sameRuns_oneMachine states _
  have hfaults : Alike (fun _ _ => True) first second := probe_faults hruns hm h hmachine hw
  have hfirst : c.evaluator.Spoilt c.spaces parameters → first ≠ .ok true := probe_spoilt he
  have hsecond : e'.Spoilt c.spaces parameters → second ≠ .ok true := fun hspoilt =>
    probe_spoilt (c := { c with evaluator := e' }) he' hspoilt
  refine ⟨fun fault => ?_, hfirst, hsecond, fun hboth => ?_⟩
  · generalize first = x at hfaults
    generalize second = y at hfaults
    cases hfaults with
    | ok _ => exact ⟨nofun, nofun⟩
    | error _ => exact Iff.rfl
  · by_cases hspoilt : c.evaluator.Spoilt c.spaces parameters
    · -- both say no, or neither says anything
      have hno := hfirst hspoilt
      have hno' := hsecond (hboth.1 hspoilt)
      generalize first = x at hfaults hno ⊢
      generalize second = y at hfaults hno' ⊢
      cases hfaults with
      | error _ => rfl
      | @ok b b' _ =>
          obtain rfl : b = false := Bool.eq_false_of_not_eq_true fun hb => hno (hb ▸ rfl)
          obtain rfl : b' = false := Bool.eq_false_of_not_eq_true fun hb => hno' (hb ▸ rfl)
          rfl
    · exact probe_fine hruns hm h hmachine hw hspoilt fun hspoilt' => hspoilt (hboth.2 hspoilt')

end Checker

/-! ### An evaluator whose second column is hidden -/

/-- The residual `3 x₀` of a block of two entries, with a given number in the second column of its
Jacobian. -/
def veiled (hidden : Float) : Evaluator Unit Float where
  blockSizes := [.count 2]
  numResiduals := .count 1
  evaluate parameters request := Action.ofExcept do
    match ← parameters.mapM Supplied.entries with
    | [[x, _]] =>
      return some ⟨.vector [3.0 * x], request.map fun _ => [.vector [3.0, hidden]]⟩
    | _ => throw .entryIndex

/-- The checker that holds the second entry constant. -/
def veiledChecker (hidden : Float) : Checker Unit Float where
  evaluator := veiled hidden
  spaces := [firstFree]
  options := { DiffOptions.standard with scheme := .central }
  cap := defaultCap

theorem veiled_settled (hidden : Float) : (veiled hidden).Has fun _ a => a.Settled := by
  exact fun parameters request => .ofExcept _

/-- Its manifold keeps no state. -/
theorem veiledChecker_steady (p : Coupling Unit) (hidden : Float) :
    ∀ space ∈ (veiledChecker hidden).spaces, ∀ m ∈ space.manifold, m.Has (Action.Steady p) := by
  intro space hs m hm
  obtain rfl := List.mem_singleton.1 hs
  obtain rfl := Option.some.inj hm
  exact ⟨fun _ _ => .ofExcept .rfl, fun _ => .pure rfl⟩

theorem veiledChecker_settled (hidden : Float) :
    (veiledChecker hidden).Has fun _ a => a.Settled := by
  refine ⟨veiled_settled hidden, fun space hs m hm => ?_⟩
  have hsteady := veiledChecker_steady .free hidden space hs m hm
  exact ⟨fun x δ => (hsteady.1 x δ).fst_eq, fun x => (hsteady.2 x).fst_eq⟩

theorem firstFree_hides_iff (place : ℕ) :
    (firstFree : BlockSpace Unit Float).Hides place ↔ place % 2 = 1 :=
  (BlockSpace.hides_iff rfl rfl place).trans List.mem_singleton

/-- Whatever stands in the second column, the rest is the same. -/
theorem veiled_sameSeen (p : Coupling Unit) (hidden hidden' : Float) :
    (veiled hidden).SameSeen p [firstFree] (veiled hidden') := by
  refine ⟨rfl, rfl, fun parameters request => .ofExcept (.bind_same fun entries => ?_)⟩
  split
  · refine .ok (.some ⟨rfl, ?_⟩)
    cases request with
    | none => exact .none
    | some mask =>
        refine .some (.cons (fun space hs => ?_) .nil)
        obtain rfl := Option.some.inj hs
        refine .ok ⟨rfl, fun place hseen => ?_⟩
        match place with
        | 0 => rfl
        | 1 => exact absurd ((firstFree_hides_iff 1).2 rfl) hseen
        | _ + 2 => rfl
  · exact .error _

/-- The evaluator is spoilt by a hidden number that is not finite, at every point. -/
theorem veiled_spoilt_iff {hidden x y : Float} :
    (veiled hidden).Spoilt [firstFree] [.vector [x, y]] ↔ Scalar.isFinite hidden = false := by
  have hb : readBlocks [.vector [x, y]] [.count 2] = .ok [[x, y]] := rfl
  have hanswer : ∀ machine w, (((veiled hidden).evaluate ([[x, y]].map .vector)
      (some ([[x, y]].map fun _ => true))).perform machine w).1 =
        .ok (some ⟨.vector [3.0 * x], some [.vector [3.0, hidden]]⟩) := fun _ _ => rfl
  constructor
  · rintro ⟨blocks, machine, w, answer, hb', hanswer', jacobians, k, space, j, t, hjacobians,
      hspace, hj, ht, -, place, z, hhidden, hz, hfinite⟩
    obtain rfl := Except.ok.inj (hb.symm.trans hb')
    obtain rfl := Option.some.inj (Except.ok.inj ((hanswer machine w).symm.trans hanswer'))
    obtain rfl := Option.some.inj hjacobians
    have hk : k = 0 := by
      have := (List.getElem?_eq_some_iff.1 hspace).1
      rw [List.length_singleton] at this
      omega
    subst hk
    obtain rfl := Option.some.inj hspace
    obtain rfl := Option.some.inj hj
    obtain rfl := Except.ok.inj ht
    have hodd := (firstFree_hides_iff place).1 hhidden
    match place, hodd with
    | 1, _ =>
        obtain rfl := Option.some.inj hz
        exact hfinite
    | _ + 2, _ => cases hz
  · intro hfinite
    have htangent : (firstFree : BlockSpace Unit Float).tangentSize ≠ .count 0 := by
      show Setting.whole 1 ≠ Setting.whole 0
      simp
    exact ⟨_, plainMachine, ⟨(), [], []⟩, _, hb, hanswer _ _, _, 0, firstFree, _, _, rfl, rfl, rfl,
      rfl, htangent, 1, hidden, (firstFree_hides_iff 1).2 rfl, rfl, hfinite⟩

theorem hidden_columns_masked_veiled :
    (((veiledChecker 0.0).probe [.vector [2.0, 1.0]] 1e-6).perform plainMachine
        ⟨(), [], []⟩).1 = .ok true ∧
      (((veiledChecker 5.0).probe [.vector [2.0, 1.0]] 1e-6).perform plainMachine
        ⟨(), [], []⟩).1 = .ok true ∧
      (((veiledChecker (1.0 / 0.0)).probe [.vector [2.0, 1.0]] 1e-6).perform plainMachine
        ⟨(), [], []⟩).1 ≠ .ok true := by
  have hzero : (((veiledChecker 0.0).probe [.vector [2.0, 1.0]] 1e-6).perform plainMachine
      ⟨(), [], []⟩).1 = .ok true := by decide +kernel
  have h := fun hidden => Checker.hidden_columns_masked (veiledChecker 0.0) (veiled hidden)
    (.inl rfl) (veiled_settled 0.0) (veiled_settled hidden) (veiled_sameSeen .free 0.0 hidden)
    (veiledChecker_steady .free 0.0) [.vector [2.0, 1.0]] 1e-6 plainMachine plainMachine
    ⟨(), [], []⟩ ⟨(), [], []⟩ trivial trivial
  obtain ⟨-, -, -, hfive⟩ := h 5.0
  obtain ⟨-, -, hinfinite, -⟩ := h (1.0 / 0.0)
  have hsame := hfive (by rw [veiledChecker, veiled_spoilt_iff, veiled_spoilt_iff]; decide +kernel)
  exact ⟨hzero, hsame.symm.trans hzero, hinfinite (veiled_spoilt_iff.2 (by decide +kernel))⟩

/-- A verdict is changed by what stands in a hidden column, if that is not finite. -/
theorem verdict_changed_by_hidden_entry :
    ¬∀ (c : Checker Unit Float) (e' : Evaluator Unit Float), (c.Has fun _ a => a.Settled) →
      (e'.Has fun _ a => a.Settled) → c.evaluator.SameSeen .free c.spaces e' →
      ∀ parameters tolerance machine w verdict verdict',
        ((c.probe parameters tolerance).perform machine w).1 = .ok verdict →
        (({ c with evaluator := e' }.probe parameters tolerance).perform machine w).1 =
          .ok verdict' → verdict = verdict' := by
  intro h
  have hzero : (((veiledChecker 0.0).probe [.vector [2.0, 1.0]] 1e-6).perform plainMachine
      ⟨(), [], []⟩).1 = .ok true := by decide +kernel
  have hinfinite : (((veiledChecker (1.0 / 0.0)).probe [.vector [2.0, 1.0]] 1e-6).perform
      plainMachine ⟨(), [], []⟩).1 = .ok false := by decide +kernel
  cases h (veiledChecker 0.0) (veiled (1.0 / 0.0)) (veiledChecker_settled 0.0)
    (veiled_settled _) (veiled_sameSeen .free 0.0 _) _ _ _ _ true false hzero hinfinite

end JacobianAudit
